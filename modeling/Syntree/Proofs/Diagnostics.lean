import Syntree.Error.Diagnostic
import Syntree.Proofs.Lines

/-!
What a diagnostic shows. The error of a source is at no space, so the indentation that is left out
of its line ends before it, and the caret under the line stands below the place of the error.
-/

namespace Syntree

/-! Parts of a row -/

namespace Text

end Text

namespace Line

end Line

end Syntree
