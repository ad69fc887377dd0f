/-!
# Secrets

## Main definitions

* `tokensMatch`: the comparison of a presented token with the expected one.
-/
namespace FleetWatch

def tokensMatch (expected presented : String) : Bool := expected = presented

@[simp] theorem tokensMatch_iff (a b : String) : tokensMatch a b = true ↔ a = b := by
  simp [tokensMatch]

end FleetWatch
