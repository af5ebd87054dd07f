import PackedIndex.Bytes
/-! # Orders of keys

An index is built and searched under an order of its keys, any comparison of two byte strings. The
common one is `bytewise`: byte by byte, a proper start before what it starts.
-/
namespace PackedIndex

/-- A comparison of keys. -/
abbrev KeyOrder := ByteArray → ByteArray → Ordering

namespace KeyOrder

def bytewiseFrom (a b : ByteArray) (i : Nat) : Ordering :=
  if ha : i < a.size then
    if hb : i < b.size then
      match compare a[i] b[i] with
      | .eq => bytewiseFrom a b (i + 1)
      | other => other
    else .gt
  else if i < b.size then .lt else .eq
termination_by a.size - i

/-- Lexicographic order of bytes, the default. -/
def bytewise : KeyOrder :=
  fun a b => bytewiseFrom a b 0

def reverse : KeyOrder :=
  fun a b => bytewise b a

end PackedIndex.KeyOrder
