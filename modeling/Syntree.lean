import Syntree.Token.Reader
import Syntree.Tree.Listing
import Syntree.Tree.Declared
import Syntree.Tree.Plan
import Syntree.Script
import Syntree.Main
import Syntree.Proofs.Derivation
import Syntree.Proofs.Exec
import Syntree.Proofs.Progress
import Syntree.Proofs.Agreement
import Syntree.Proofs.Lexemes
import Syntree.Proofs.Commitment
import Syntree.Proofs.Completeness
import Syntree.Proofs.Expected
import Syntree.Proofs.Lookahead
import Syntree.Proofs.Nesting
import Syntree.Proofs.Positions
import Syntree.Proofs.Respacing
import Syntree.Proofs.Separators
import Syntree.Proofs.Session
import Syntree.Proofs.Tiling
import Syntree.Proofs.Placement
import Syntree.Proofs.Unplaced
import Syntree.Proofs.Visiting
import Syntree.Proofs.Concatenation
import Syntree.Proofs.Recognition
import Syntree.Proofs.Faults
import Syntree.Proofs.Layout
import Syntree.Proofs.Spelling
import Syntree.Proofs.Precedence
import Syntree.Proofs.Depth
import Syntree.Proofs.Lines
import Syntree.Proofs.Diagnostics
import Syntree.Proofs.Quotes
import Syntree.Proofs.Escapes
import Syntree.Proofs.SoftWords
import Syntree.Proofs.Alternatives
import Syntree.Proofs.Munching
import Syntree.Proofs.Summaries
import Syntree.Proofs.Walking
import Syntree.Proofs.Numbers
import Syntree.Proofs.Repetition
