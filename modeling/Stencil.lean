import Stencil.Main
import Stencil.Proofs.Scoping
import Stencil.Proofs.Binding
import Stencil.Proofs.Simulation
import Stencil.Proofs.Isolation
import Stencil.Proofs.Serving
import Stencil.Proofs.Calls
import Stencil.Proofs.Caching
import Stencil.Proofs.Grammar
import Stencil.Proofs.Parsing
import Stencil.Proofs.Acceptance
import Stencil.Proofs.Layouts
import Stencil.Proofs.Concatenation
import Stencil.Proofs.History
import Stencil.Proofs.Dictionaries
import Stencil.Proofs.Exactness
import Stencil.Proofs.Words
import Stencil.Proofs.Expressions
import Stencil.Proofs.Spelling
import Stencil.Proofs.Iteration
import Stencil.Proofs.Looping
import Stencil.Proofs.Composition
import Stencil.Proofs.Recording
import Stencil.Proofs.Nesting
import Stencil.Proofs.Opening
import Stencil.Proofs.Failures
import Stencil.Proofs.Printing
import Stencil.Proofs.Capturing
import Stencil.Proofs.Comments
import Stencil.Proofs.Decimals
import Stencil.Proofs.Magnitudes
import Stencil.Proofs.Nearest
import Stencil.Proofs.Literals
import Stencil.Proofs.Chains
import Stencil.Proofs.Requests
import Stencil.Proofs.Handing
import Stencil.Proofs.Rounding
import Stencil.Proofs.Comparing
import Stencil.Proofs.Naming
import Stencil.Proofs.Ranges
import Stencil.Proofs.Assigning
import Stencil.Proofs.Aliases
import Stencil.Proofs.Margins
import Stencil.Proofs.Branching
