import Stencil.FileTree
import Stencil.Snippet.Store

/-!
# Snippet files

Snippets that are not registered are looked for in files: the snippet of a name is
the text of the file with that name and a common extension in a common folder. The
name is put into the path as it is, so separators and dots in it count as such.

A missing file means that there is no such snippet; a file that cannot be read as
text is a failure.
-/

namespace Stencil

/-- The folder and the extension, without its dot, of snippet files. -/
structure SnippetFiles where
  folder : String
  extension : String
  deriving DecidableEq, Repr

namespace SnippetFiles

/-- The path of a snippet's file. -/
def path (files : SnippetFiles) (name : String) : String :=
  Path.join files.folder (name ++ "." ++ files.extension)

/-- The answer that the text of a file gives. -/
def answer : FileText → Answer
  | .found text => .ok (some text)
  | .missing => .ok none
  | .failed => .error .unreadable

/-- The source of these files, with a record of the paths that were opened, the
latest first. -/
def source (files : SnippetFiles) (read : String → FileText) : Source (List String) :=
  ⟨fun name opened => (answer (read (files.path name)), files.path name :: opened)⟩

end SnippetFiles

end Stencil
