import ChangeRelay.Json.Shape
import ChangeRelay.Proofs.Except

namespace ChangeRelay.Json

variable {α σ : Type} {v : Json}

theorem isInt64_iff {n : Int} :
    isInt64 n = true ↔ -9223372036854775808 ≤ n ∧ n ≤ 9223372036854775807 := by
  have hp : Int.pow 2 63 = 9223372036854775808 := rfl
  simp only [isInt64, hp, Bool.and_eq_true, decide_eq_true_eq]
  omega

theorem asText_eq_ok_iff {s : String} : asText v = .ok s ↔ v = .str s := by
  cases v <;> simp [asText]

theorem asTextOrNull_eq_ok_iff {o : Option String} :
    asTextOrNull v = .ok o ↔ v = .null ∧ o = none ∨ ∃ s, v = .str s ∧ o = some s := by
  cases v <;> simp [asTextOrNull, asText, Except.map, eq_comm]

theorem needed_eq_ok_iff {name : String} {o : Option α} {a : α} :
    needed name o = .ok a ↔ o = some a := by
  cases o <;> simp [needed]

theorem store_eq_ok_iff {name : String} {o : Option α} {value : Except Mismatch α} {put : α → σ}
    {d : σ} : store name o value put = .ok d ↔ o = none ∧ ∃ a, value = .ok a ∧ put a = d := by
  cases o <;> simp [store, map_eq_ok_iff]

theorem atMost_eq_ok_iff {n : Nat} {xs : List Json} {u : Unit} :
    atMost n xs = .ok u ↔ xs.length ≤ n := by
  unfold atMost
  split <;> simp [*]

end ChangeRelay.Json
