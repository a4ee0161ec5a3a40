import Gems.Lib.Prog
import Mathlib.Data.Nat.Bitwise

set_option autoImplicit false

namespace Gems

inductive Error where
  | corruptPage (detail : String)
  | invalidValue (detail : String)
  | io
  deriving DecidableEq, Repr

-- `io` is what the system says of its error.
def Error.display (io : String) : Error → String
  | .corruptPage detail => "corrupt page: " ++ detail
  | .invalidValue detail => "invalid value: " ++ detail
  | .io => "io error: " ++ io

abbrev Fault := Lib.Fault Error

abbrev Prog (S A : Type) := Lib.Prog Error S A

def ofExcept {S A : Type} : Except Error A → Prog S A
  | .ok a => pure a
  | .error e => Lib.Prog.raise e

def ofResult {S A : Type} : Except Fault A → Prog S A
  | .ok a => pure a
  | .error e => Lib.Prog.fail e

theorem raises_ofResult {S A : Type} {measure : S → Nat} {k : Nat} {result : Except Fault A} :
    Lib.Prog.Raises measure k (ofResult result : Prog S A) := by
  cases result with
  | ok a => exact Lib.Prog.raises_pure
  | error e => exact Lib.Prog.raises_fail

-- The OS page size is whatever the kernel reports: a power of two, 4096 or more.
structure PageSize where
  size : Nat
  power : ∃ k, 12 ≤ k ∧ size = 2 ^ k

-- `(len + page - 1) & !(page - 1)`, where `x & !m` is `x - (x & m)`.
def roundUpToOsPage (page : PageSize) (len : Nat) : Nat :=
  (len + page.size - 1) - ((len + page.size - 1) &&& (page.size - 1))

theorem PageSize.positive (page : PageSize) : 0 < page.size := by
  obtain ⟨k, -, eq⟩ := page.power
  rw [eq]
  exact Nat.two_pow_pos k

theorem PageSize.dvd_4096 (page : PageSize) : 4096 ∣ page.size := by
  obtain ⟨k, large, eq⟩ := page.power
  rw [eq, show 4096 = 2 ^ 12 by rfl]
  exact Nat.pow_dvd_pow 2 large

theorem roundUpToOsPage_eq (page : PageSize) (len : Nat) :
    roundUpToOsPage page len = (len + page.size - 1) / page.size * page.size := by
  obtain ⟨k, -, eq⟩ := page.power
  have split := Nat.div_add_mod (len + page.size - 1) page.size
  rw [roundUpToOsPage]
  nth_rewrite 3 [eq]
  rw [Nat.and_two_pow_sub_one_eq_mod, ← eq, Nat.mul_comm]
  omega

theorem le_roundUpToOsPage (page : PageSize) (len : Nat) : len ≤ roundUpToOsPage page len := by
  have positive := page.positive
  have split := Nat.div_add_mod (len + page.size - 1) page.size
  have small := Nat.mod_lt (len + page.size - 1) positive
  rw [roundUpToOsPage_eq, Nat.mul_comm]
  omega

theorem dvd_roundUpToOsPage (page : PageSize) (len : Nat) :
    page.size ∣ roundUpToOsPage page len := by
  rw [roundUpToOsPage_eq]
  exact Nat.dvd_mul_left _ _

-- A length that is already a whole number of pages passes through.
theorem roundUpToOsPage_add (page : PageSize) {whole : Nat} (dvd : page.size ∣ whole) (len : Nat) :
    roundUpToOsPage page (whole + len) = whole + roundUpToOsPage page len := by
  obtain ⟨k, rfl⟩ := dvd
  have positive := page.positive
  rw [roundUpToOsPage_eq, roundUpToOsPage_eq,
    show page.size * k + len + page.size - 1 = len + page.size - 1 + page.size * k by omega,
    Nat.add_mul_div_left _ _ positive, Nat.add_mul, Nat.mul_comm k, Nat.add_comm]

end Gems
