/-! # Hexadecimal text

Numbers and byte strings in lower-case hexadecimal digits.
-/
namespace PackedIndex.Hexadecimal

def ofNat (n : Nat) : String :=
  String.ofList (Nat.toDigits 16 n)

def marked (n : Nat) : String :=
  "0x" ++ ofNat n

def padded (width n : Nat) : String :=
  let digits := Nat.toDigits 16 n
  String.ofList (List.replicate (width - digits.length) '0' ++ digits)

def ofBytes (data : ByteArray) : String :=
  String.ofList (data.data.toList.flatMap fun byte =>
    [Nat.digitChar (byte.toNat / 16), Nat.digitChar (byte.toNat % 16)])

end PackedIndex.Hexadecimal
