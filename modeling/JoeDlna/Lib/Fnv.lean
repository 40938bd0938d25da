import JoeDlna.Lib.Text

/-!
# FNV-1a

The 64-bit FNV-1a hash of a byte string, byte by byte, and the bytes of a machine integer.
-/

namespace JoeDlna.Lib

/-- The offset basis of 64-bit FNV-1a. -/
def fnvOffset : UInt64 := 0xcbf29ce484222325

/-- The prime of 64-bit FNV-1a. -/
def fnvPrime : UInt64 := 0x00000100000001b3

/-- One byte of the hash. -/
def fnvByte (hash : UInt64) (byte : UInt8) : UInt64 := (hash ^^^ byte.toUInt64) * fnvPrime

/-- The hash extended by a byte string. -/
def fnvBytes (hash : UInt64) (bytes : List UInt8) : UInt64 := bytes.foldl fnvByte hash

@[simp] theorem fnvBytes_append (hash : UInt64) (a b : List UInt8) :
    fnvBytes hash (a ++ b) = fnvBytes (fnvBytes hash a) b := List.foldl_append

/-- The bytes of a 64-bit integer, lowest first. -/
def leBytes (n : UInt64) : List UInt8 :=
  (List.range 8).map fun i => UInt8.ofNat (n.toNat / 256 ^ i)

@[simp] theorem length_leBytes (n : UInt64) : (leBytes n).length = 8 := by simp [leBytes]

theorem leBytes_injective : Function.Injective leBytes := by
  intro m n h
  have hm := m.toNat_lt
  have hn := n.toNat_lt
  have hbyte : ∀ i < 8, m.toNat / 256 ^ i % 256 = n.toNat / 256 ^ i % 256 := by
    intro i hi
    have := congrArg (fun l => (l.getD i 0).toNat) h
    simpa [leBytes, List.getD_eq_getElem?_getD, hi] using this
  have h0 := hbyte 0 (by decide)
  have h1 := hbyte 1 (by decide)
  have h2 := hbyte 2 (by decide)
  have h3 := hbyte 3 (by decide)
  have h4 := hbyte 4 (by decide)
  have h5 := hbyte 5 (by decide)
  have h6 := hbyte 6 (by decide)
  have h7 := hbyte 7 (by decide)
  apply UInt64.toNat_inj.1
  norm_num at h0 h1 h2 h3 h4 h5 h6 h7
  omega

end JoeDlna.Lib
