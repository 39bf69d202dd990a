import Mathlib.Data.Nat.ModEq
import Workflow.Identifier

/-!
# Identifiers are no two alike

Until `2 ^ 128` of them are drawn. The digits tell the number, and an odd factor can be cancelled
modulo a power of two.
-/

namespace Workflow

namespace Text

theorem hexDigit_inj {first second : Nat} (hfirst : first < 16) (hsecond : second < 16)
    (h : hexDigit first = hexDigit second) : first = second := by
  have hall : ∀ first second : Fin 16, hexDigit first = hexDigit second → first = second := by
    decide
  exact congrArg Fin.val (hall ⟨first, hfirst⟩ ⟨second, hsecond⟩ h)

theorem hexDigits_inj {count first second : Nat} (hfirst : first < 16 ^ count)
    (hsecond : second < 16 ^ count) (h : hexDigits count first = hexDigits count second) :
    first = second := by
  induction count generalizing first second with
  | zero => omega
  | succ count ih =>
      obtain ⟨hinit, hlast⟩ := List.append_inj' h rfl
      have hdiv : first / 16 = second / 16 :=
        ih (Nat.div_lt_of_lt_mul (by omega)) (Nat.div_lt_of_lt_mul (by omega)) hinit
      have hmod : first % 16 = second % 16 :=
        hexDigit_inj (Nat.mod_lt _ (by decide)) (Nat.mod_lt _ (by decide)) (List.cons.inj hlast).1
      omega

end Text

namespace Identifier

theorem coprime_spread : Nat.gcd (2 ^ 128) spread = 1 := by
  decide +kernel

theorem spell_inj {first second : Nat} (hfirst : first < 2 ^ 128) (hsecond : second < 2 ^ 128)
    (h : spell first = spell second) : first = second := by
  have hdigits := String.ofList_injective h
  have hbelow : ∀ n, (n + 1) * spread % 2 ^ 128 < 16 ^ 32 := by
    intro n
    calc (n + 1) * spread % 2 ^ 128
      _ < 2 ^ 128 := Nat.mod_lt _ (by decide)
      _ = 16 ^ 32 := by decide
  have hmod : (first + 1) * spread ≡ (second + 1) * spread [MOD 2 ^ 128] :=
    Text.hexDigits_inj (hbelow first) (hbelow second) hdigits
  have hsucc : first + 1 ≡ second + 1 [MOD 2 ^ 128] :=
    Nat.ModEq.cancel_right_of_coprime coprime_spread hmod
  have hsame : first ≡ second [MOD 2 ^ 128] := Nat.ModEq.add_right_cancel' 1 hsucc
  exact hsame.eq_of_lt_of_lt hfirst hsecond

end Identifier

end Workflow
