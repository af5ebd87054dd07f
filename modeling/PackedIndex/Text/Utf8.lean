/-! # Reading UTF-8

Bytes are read as a sequence of units: a unit is a scalar value, or the longest start of a
well-formed sequence that breaks off (a single byte when nothing can start with it). `lossy` shows
each broken unit as U+FFFD; `strict?` refuses a text that has one.
-/
namespace PackedIndex.Utf8

/-- The ranges of the bytes that must follow `lead`, or nothing when no character starts with it. -/
def continuations (lead : UInt8) : Option (List (UInt8 × UInt8)) :=
  let any : UInt8 × UInt8 := (0x80, 0xBF)
  if lead < 0x80 then some []
  else if lead < 0xC2 then none
  else if lead < 0xE0 then some [any]
  else if lead = 0xE0 then some [(0xA0, 0xBF), any]
  else if lead = 0xED then some [(0x80, 0x9F), any]
  else if lead < 0xF0 then some [any, any]
  else if lead = 0xF0 then some [(0x90, 0xBF), any, any]
  else if lead < 0xF4 then some [any, any, any]
  else if lead = 0xF4 then some [(0x80, 0x8F), any, any]
  else none

/-- The bits of the scalar value that `lead` carries when `count` bytes follow it. -/
def leadBits (lead : UInt8) (count : Nat) : Nat :=
  if count = 0 then lead.toNat else lead.toNat % (64 >>> count)

/-- Takes one byte of each range and adds its six bits. Ends with the scalar value, or nothing at
the first byte that is missing or out of range, and the bytes not taken. -/
def follow : List (UInt8 × UInt8) → Nat → List UInt8 → Option Nat × List UInt8
  | [], bits, rest => (some bits, rest)
  | _ :: _, _, [] => (none, [])
  | (low, high) :: ranges, bits, byte :: rest =>
    if low ≤ byte ∧ byte ≤ high then follow ranges (bits * 64 + byte.toNat % 64) rest
    else (none, byte :: rest)

theorem length_follow_le (ranges : List (UInt8 × UInt8)) (bits : Nat) (rest : List UInt8) :
    (follow ranges bits rest).2.length ≤ rest.length := by
  induction ranges generalizing bits rest with
  | nil => exact Nat.le_refl _
  | cons range ranges ih =>
    cases rest with
    | nil => exact Nat.le_refl _
    | cons byte rest =>
      rw [follow]
      split
      · exact Nat.le_succ_of_le (ih _ _)
      · exact Nat.le_refl _

/-- The units of a byte string; nothing stands for a broken one. -/
def units : List UInt8 → List (Option Char)
  | [] => []
  | lead :: rest =>
    match continuations lead with
    | none => none :: units rest
    | some ranges =>
      let read := follow ranges (leadBits lead ranges.length) rest
      read.1.map Char.ofNat :: units read.2
termination_by bytes => bytes.length
decreasing_by
  · exact Nat.lt_succ_self _
  · exact Nat.lt_succ_of_le (length_follow_le ..)

/-- The text of `data`, with U+FFFD for each broken unit. -/
def lossy (data : ByteArray) : String :=
  String.ofList ((units data.data.toList).map (·.getD '\uFFFD'))

def strict? (data : ByteArray) : Option String :=
  ((units data.data.toList).mapM id).map String.ofList

end PackedIndex.Utf8
