import Mathlib.Data.Nat.Digits.Defs
import Mathlib.Tactic.Ring

/-!
# Fixed-width integers as byte strings

`leBytes n v` are the `n` low bytes of `v`, least significant first: the object
representation of an unsigned integer on a little-endian machine. `leNat` reads
such a byte string back. Network order is the reverse, `beBytes` and `beNat`.

* `leNat_leBytes`, `leBytes_leNat`: the two maps are inverse to each other
  (up to reduction modulo `256 ^ n`).
* `leNat_append`: reading a concatenation.
* `parseRecords_flatMap`: a sequence of records of one size is read back.
* `writeAt`: overwriting part of a buffer, as `memcpy` does.
* `sizeAdd`, `sizeSub`: arithmetic on 64-bit `size_t` values; `sizeSub?` is the
  subtraction with a check that it does not wrap.
-/

namespace EndlessPeak.Lib

/-- The `n` low bytes of `v`, least significant first. -/
def leBytes (n v : ℕ) : List UInt8 := (List.range n).map fun i => UInt8.ofNat (v / 256 ^ i)

/-- The number whose bytes are `l`, least significant first. -/
def leNat (l : List UInt8) : ℕ := Nat.ofDigits 256 (l.map UInt8.toNat)

/-- The `n` low bytes of `v`, most significant first. -/
def beBytes (n v : ℕ) : List UInt8 := (leBytes n v).reverse

/-- The number whose bytes are `l`, most significant first. -/
def beNat (l : List UInt8) : ℕ := leNat l.reverse

/-- `dst` after `src` has been copied over it from offset `off` on. -/
def writeAt (dst : List UInt8) (off : ℕ) (src : List UInt8) : List UInt8 :=
  dst.take off ++ src ++ dst.drop (off + src.length)

@[simp] theorem length_leBytes (n v : ℕ) : (leBytes n v).length = n := by simp [leBytes]

@[simp] theorem length_beBytes (n v : ℕ) : (beBytes n v).length = n := by simp [beBytes]

@[simp] theorem leNat_nil : leNat [] = 0 := rfl

theorem leNat_append (a b : List UInt8) :
    leNat (a ++ b) = leNat a + 256 ^ a.length * leNat b := by
  simp [leNat, Nat.ofDigits_append]

theorem leNat_lt (l : List UInt8) : leNat l < 256 ^ l.length := by
  have h := Nat.ofDigits_lt_base_pow_length (b := 256) (l := l.map UInt8.toNat) (by norm_num)
    (fun x hx => by
      obtain ⟨b, _, rfl⟩ := List.mem_map.mp hx
      exact b.toNat_lt)
  simpa [leNat] using h

theorem leNat_leBytes (n v : ℕ) : leNat (leBytes n v) = v % 256 ^ n := by
  induction n with
  | zero => simp [leBytes, Nat.mod_one]
  | succ n ih =>
    have hsplit : leBytes (n + 1) v = leBytes n v ++ [UInt8.ofNat (v / 256 ^ n)] := by
      simp [leBytes, List.range_succ]
    have hlast : leNat [UInt8.ofNat (v / 256 ^ n)] = v / 256 ^ n % 256 := by
      simp [leNat]
    rw [hsplit, leNat_append, ih, hlast, length_leBytes, Nat.mod_pow_succ]

theorem leNat_inj {a b : List UInt8} (hlen : a.length = b.length) (h : leNat a = leNat b) :
    a = b := by
  have hdigit : ∀ l : List UInt8, ∀ x ∈ l.map UInt8.toNat, x < 256 := by
    intro l x hx
    obtain ⟨c, _, rfl⟩ := List.mem_map.mp hx
    exact c.toNat_lt
  have hmap : a.map UInt8.toNat = b.map UInt8.toNat :=
    Nat.ofDigits_inj_of_len_eq (by norm_num) (by simpa using hlen) (hdigit a) (hdigit b) h
  exact (List.map_inj_right fun _ _ => UInt8.toNat_inj.mp).mp hmap

theorem leBytes_leNat {n : ℕ} {l : List UInt8} (h : l.length = n) : leBytes n (leNat l) = l := by
  apply leNat_inj (by simp [h])
  rw [leNat_leBytes, Nat.mod_eq_of_lt (h ▸ leNat_lt l)]

theorem beNat_beBytes (n v : ℕ) : beNat (beBytes n v) = v % 256 ^ n := by
  simp [beNat, beBytes, leNat_leBytes]

/-! ## Records of one size -/

section Records

variable {A : Type*} (size : ℕ) (read : List UInt8 → A)

/-- `count` records of `size` bytes each, and nothing after them. -/
def parseRecords : ℕ → List UInt8 → Option (List A)
  | 0, bytes => if bytes = [] then some [] else none
  | count + 1, bytes =>
    if bytes.length < size then none
    else (parseRecords count (bytes.drop size)).map (read (bytes.take size) :: ·)

variable {size} {read} {write : A → List UInt8}

/-- Records that are read as they were written are parsed back. -/
theorem parseRecords_flatMap (hlen : ∀ a, (write a).length = size) (hread : ∀ a, read (write a) = a)
    (l : List A) : parseRecords size read l.length (l.flatMap write) = some l := by
  induction l with
  | nil => rfl
  | cons a l ih =>
    have hle : ¬ (write a ++ l.flatMap write).length < size := by
      rw [List.length_append, hlen]
      omega
    rw [List.flatMap_cons, List.length_cons, parseRecords, if_neg hle, List.drop_left' (hlen a),
      List.take_left' (hlen a), ih, hread]
    rfl

end Records

/-! ## Overwriting a buffer -/

theorem length_writeAt {dst src : List UInt8} {off : ℕ} (h : off + src.length ≤ dst.length) :
    (writeAt dst off src).length = dst.length := by
  simp [writeAt]; omega

theorem take_writeAt {dst src : List UInt8} {off : ℕ} (h : off ≤ dst.length) :
    (writeAt dst off src).take (off + src.length) = dst.take off ++ src := by
  rw [writeAt, List.take_append_of_le_length (by simp; omega), List.take_of_length_le (by simp)]

/-- Writing at the end of a buffer that has just been enlarged by `src.length`
    bytes appends. -/
theorem writeAt_append (a b src : List UInt8) (h : b.length = src.length) :
    writeAt (a ++ b) a.length src = a ++ src := by
  rw [writeAt, List.take_left', List.drop_of_length_le (by simp [h]), List.append_nil]
  rfl

/-! ## `size_t` arithmetic -/

/-- `a + b` on 64-bit unsigned integers. -/
def sizeAdd (a b : ℕ) : ℕ := (a + b) % 2 ^ 64

/-- `a - b` on 64-bit unsigned integers; it wraps when `b > a`. -/
def sizeSub (a b : ℕ) : ℕ := (a + 2 ^ 64 - b) % 2 ^ 64

theorem sizeAdd_eq {a b : ℕ} (h : a + b < 2 ^ 64) : sizeAdd a b = a + b := Nat.mod_eq_of_lt h

theorem sizeSub_eq {a b : ℕ} (h : b ≤ a) (ha : a < 2 ^ 64) : sizeSub a b = a - b := by
  rw [sizeSub, show a + 2 ^ 64 - b = a - b + 2 ^ 64 by omega, Nat.add_mod_right,
    Nat.mod_eq_of_lt (by omega)]

/-- `a - b` on 64-bit unsigned integers, where it does not wrap. -/
def sizeSub? (a b : ℕ) : Option ℕ := if b ≤ a then some (sizeSub a b) else none

theorem sizeSub?_eq {a b : ℕ} (h : b ≤ a) : sizeSub? a b = some (sizeSub a b) := if_pos h

end EndlessPeak.Lib
