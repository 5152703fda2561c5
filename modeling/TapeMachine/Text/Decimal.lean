/-! Integers as decimal text. Written numerals are canonical; read ones may carry one sign and any
number of leading zeros. -/

namespace TapeMachine.Text

def decimal : Int → List Char
  | .ofNat n => Nat.toDigits 10 n
  | .negSucc n => '-' :: Nat.toDigits 10 (n + 1)

def decimalText (x : Int) : String := String.ofList (decimal x)

def digits? (text : List Char) : Option Nat :=
  if text ≠ [] ∧ text.all Char.isDigit then some (Nat.ofDigitChars 10 text 0) else none

/-- The integer written by digits after at most one sign. -/
def integer? : List Char → Option Int
  | '+' :: text => (digits? text).map Int.ofNat
  | '-' :: text => (digits? text).map fun n => -Int.ofNat n
  | text => (digits? text).map Int.ofNat

def wordBound : Nat := 0x10000000000000000

/-- The 64-bit number written by digits after at most a plus sign. -/
def natural64? (text : List Char) : Option Nat :=
  let digits := match text with
    | '+' :: rest => rest
    | _ => text
  (digits? digits).filter (· < wordBound)

theorem digits?_toDigits (n : Nat) : digits? (Nat.toDigits 10 n) = some n := by
  have digits : (Nat.toDigits 10 n).all Char.isDigit = true :=
    List.all_eq_true.mpr fun _ h => Nat.isDigit_of_mem_toDigits (by decide) (by decide) h
  simp [digits?, digits, Nat.ofDigitChars_toDigits]

theorem integer?_of_isDigit {text : List Char} (h : text.all Char.isDigit) :
    integer? text = (digits? text).map Int.ofNat := by
  unfold integer?
  split
  · simp at h
  · simp at h
  · rfl

@[simp] theorem integer?_decimal (x : Int) : integer? (decimal x) = some x := by
  cases x with
  | ofNat n =>
    have digits : (Nat.toDigits 10 n).all Char.isDigit = true :=
      List.all_eq_true.mpr fun _ h => Nat.isDigit_of_mem_toDigits (by decide) (by decide) h
    rw [decimal, integer?_of_isDigit digits, digits?_toDigits]
    rfl
  | negSucc n =>
    simp only [decimal, integer?, digits?_toDigits, Option.map_some]
    rfl

end TapeMachine.Text
