import Mathlib.Data.UInt
import Mathlib.Data.Nat.Log

/-! Base-128 varints: seven bits to a byte, lowest first, with the high bit set on
every byte but the last. Signed numbers are mapped to unsigned ones with the sign
in the lowest bit. -/
namespace Varint

/-- A number below `2 ^ (7 * (n + 1))` needs at most `n` continued bytes. -/
def encodeFrom : Nat → UInt64 → List UInt8
  | 0, x => [x.toUInt8]
  | n + 1, x => if 0x80 ≤ x then (x.toUInt8 ||| 0x80) :: encodeFrom n (x >>> 7) else [x.toUInt8]

def maxLength : Nat := 10

def encode (x : UInt64) : List UInt8 := encodeFrom (maxLength - 1) x

/-- The reading loop at byte `i`, with the value so far. The second component is
the number of bytes read; it is zero if the input ended too early and negative if
the number does not fit. -/
def decodeFrom : List UInt8 → Nat → UInt64 → UInt64 × Int
  | [], _, _ => (0, 0)
  | b :: rest, i, x =>
      if i = maxLength then (0, -(i + 1 : Int))
      else if b < 0x80 then
        if i = maxLength - 1 ∧ 1 < b then (0, -(i + 1 : Int))
        else (x ||| b.toUInt64 <<< UInt64.ofNat (7 * i), (i + 1 : Int))
      else decodeFrom rest (i + 1) (x ||| (b &&& 0x7f).toUInt64 <<< UInt64.ofNat (7 * i))

def decode (data : List UInt8) : UInt64 × Int := decodeFrom data 0 0

def zigzag (x : Int64) : UInt64 :=
  let ux := x.toUInt64 <<< 1
  if x < 0 then ~~~ux else ux

def unzigzag (ux : UInt64) : Int64 :=
  let x := (ux >>> 1).toInt64
  if ux &&& 1 ≠ 0 then ~~~x else x

def encodeSigned (x : Int64) : List UInt8 := encode (zigzag x)

def decodeSigned (data : List UInt8) : Int64 × Int :=
  let (ux, n) := decode data
  (unzigzag ux, n)

variable {x : UInt64} {i : Nat}

theorem toNat_shiftRight_seven (x : UInt64) : (x >>> 7).toNat = x.toNat / 128 := by
  rw [UInt64.toNat_shiftRight]
  simp [Nat.shiftRight_eq_div_pow]

theorem toNat_toUInt8_of_lt (h : x.toNat < 128) : x.toUInt8.toNat = x.toNat := by
  rw [UInt64.toNat_toUInt8]
  exact Nat.mod_eq_of_lt (by omega)

private theorem or_high (n : Fin 256) : n.val ||| 128 = n.val % 128 + 128 := by
  revert n
  decide +kernel

theorem toNat_continued (x : UInt64) : (x.toUInt8 ||| 0x80).toNat = x.toNat % 128 + 128 := by
  have hmod : x.toNat % 256 % 128 = x.toNat % 128 := by omega
  rw [UInt8.toNat_or, UInt64.toNat_toUInt8, ← hmod]
  exact or_high ⟨x.toNat % 256, Nat.mod_lt _ (by decide)⟩

theorem toNat_and_low (b : UInt8) : (b &&& 0x7f).toNat = b.toNat % 128 := by
  rw [UInt8.toNat_and]
  exact Nat.and_two_pow_sub_one_eq_mod b.toNat 7

theorem toNat_or_group {group : UInt64} {value : Nat} (hi : i < maxLength)
    (hx : x.toNat = value % 2 ^ (7 * i)) (hgroup : group.toNat = value / 2 ^ (7 * i) % 128)
    (hvalue : value < 2 ^ 64) :
    (x ||| group <<< UInt64.ofNat (7 * i)).toNat = value % 2 ^ (7 * (i + 1)) := by
  unfold maxLength at hi
  have hshift : (UInt64.ofNat (7 * i)).toNat = 7 * i := by
    rw [UInt64.toNat_ofNat']
    exact Nat.mod_eq_of_lt (by omega)
  have hnext : value % 2 ^ (7 * (i + 1)) =
      2 ^ (7 * i) * (value / 2 ^ (7 * i) % 128) + value % 2 ^ (7 * i) := by
    rw [Nat.mul_succ, Nat.pow_add, Nat.mod_mul, Nat.add_comm]
  have hfits : 2 ^ (7 * i) * (value / 2 ^ (7 * i) % 128) < 2 ^ 64 := by
    have hle : value % 2 ^ (7 * (i + 1)) ≤ value := Nat.mod_le _ _
    omega
  rw [UInt64.toNat_or, UInt64.toNat_shiftLeft, hshift, Nat.mod_eq_of_lt (by omega : 7 * i < 64),
    hgroup, hx, Nat.shiftLeft_eq, Nat.mul_comm (value / 2 ^ (7 * i) % 128), Nat.mod_eq_of_lt hfits,
    hnext, Nat.or_comm, Nat.two_pow_add_eq_or_of_lt (Nat.mod_lt _ (Nat.two_pow_pos _))]

theorem encodeFrom_of_lt {n : Nat} (h : x.toNat < 128) :
    encodeFrom n x = [x.toUInt8] := by
  cases n with
  | zero => rfl
  | succ n =>
    have hsmall : ¬(0x80 : UInt64) ≤ x := by
      rw [UInt64.le_iff_toNat_le]
      exact Nat.not_le_of_lt h
    rw [encodeFrom, if_neg hsmall]

theorem encodeFrom_of_le {n : Nat} (h : 128 ≤ x.toNat) :
    encodeFrom (n + 1) x = (x.toUInt8 ||| 0x80) :: encodeFrom n (x >>> 7) := by
  have hlarge : (0x80 : UInt64) ≤ x := UInt64.le_iff_toNat_le.mpr h
  rw [encodeFrom, if_pos hlarge]

section Groups
variable {value : Nat} {acc : UInt64} (rest : List UInt8)

/-- The last byte completes the value; the tenth byte has one bit left. -/
theorem decodeFrom_last (hi : i < maxLength) (hvalue : value < 2 ^ 64)
    (hx : x.toNat = value / 2 ^ (7 * i)) (hacc : acc.toNat = value % 2 ^ (7 * i))
    (hsmall : x.toNat < 128) (htop : i = maxLength - 1 → x.toNat ≤ 1) :
    decodeFrom (x.toUInt8 :: rest) i acc = (UInt64.ofNat value, (i + 1 : Int)) := by
  have hbyte := toNat_toUInt8_of_lt hsmall
  have hstop : x.toUInt8 < 0x80 := by
    rw [UInt8.lt_iff_toNat_lt, hbyte]
    exact hsmall
  have hfits : ¬(i = maxLength - 1 ∧ 1 < x.toUInt8) := by
    rintro ⟨hfinal, hone⟩
    rw [UInt8.lt_iff_toNat_lt, hbyte] at hone
    exact Nat.not_lt_of_le (htop hfinal) hone
  have hgroup : x.toUInt8.toUInt64.toNat = value / 2 ^ (7 * i) % 128 := by
    rw [UInt8.toNat_toUInt64, hbyte, hx, Nat.mod_eq_of_lt (hx ▸ hsmall)]
  have hwhole : value % 2 ^ (7 * (i + 1)) = value := by
    refine Nat.mod_eq_of_lt ?_
    rw [Nat.mul_succ, Nat.pow_add, Nat.mul_comm]
    exact (Nat.div_lt_iff_lt_mul (Nat.two_pow_pos _)).mp (hx ▸ hsmall)
  have hsum := toNat_or_group hi hacc hgroup hvalue
  rw [decodeFrom, if_neg (Nat.ne_of_lt hi), if_pos hstop, if_neg hfits]
  refine Prod.ext (UInt64.toNat_inj.mp ?_) rfl
  rw [hsum, hwhole, UInt64.toNat_ofNat', Nat.mod_eq_of_lt hvalue]

theorem decodeFrom_continued (hi : i < maxLength) (hvalue : value < 2 ^ 64)
    (hx : x.toNat = value / 2 ^ (7 * i)) (hacc : acc.toNat = value % 2 ^ (7 * i)) :
    ∃ next : UInt64, next.toNat = value % 2 ^ (7 * (i + 1)) ∧
      decodeFrom ((x.toUInt8 ||| 0x80) :: rest) i acc = decodeFrom rest (i + 1) next := by
  have hgo : ¬x.toUInt8 ||| 0x80 < 0x80 := by
    rw [UInt8.lt_iff_toNat_lt, toNat_continued]
    exact Nat.not_lt_of_le (Nat.le_add_left _ _)
  have hgroup : ((x.toUInt8 ||| 0x80) &&& 0x7f).toUInt64.toNat = value / 2 ^ (7 * i) % 128 := by
    rw [UInt8.toNat_toUInt64, toNat_and_low, toNat_continued, hx]
    omega
  refine ⟨_, toNat_or_group hi hacc hgroup hvalue, ?_⟩
  rw [decodeFrom, if_neg (Nat.ne_of_lt hi), if_neg hgo]

theorem decodeFrom_encodeFrom {n : Nat} (hn : i + n + 1 = maxLength) (hvalue : value < 2 ^ 64)
    (hx : x.toNat = value / 2 ^ (7 * i)) (hacc : acc.toNat = value % 2 ^ (7 * i)) :
    decodeFrom (encodeFrom n x ++ rest) i acc =
      (UInt64.ofNat value, ((i + (encodeFrom n x).length : Nat) : Int)) := by
  have hi : i < maxLength := by omega
  induction n generalizing i x acc with
  | zero =>
    -- the ninth shift leaves one bit
    have htop : x.toNat ≤ 1 := by
      have hlast : 7 * i = 63 := by unfold maxLength at hn; omega
      rw [hx, hlast]
      omega
    exact decodeFrom_last rest hi hvalue hx hacc (by omega) fun _ => htop
  | succ n ih =>
    by_cases hsmall : x.toNat < 128
    · rw [encodeFrom_of_lt hsmall]
      exact decodeFrom_last rest hi hvalue hx hacc hsmall fun hlast => by omega
    · have ⟨next, hnext, hstep⟩ :=
        decodeFrom_continued (encodeFrom n (x >>> 7) ++ rest) hi hvalue hx hacc
      have hshift : (x >>> 7).toNat = value / 2 ^ (7 * (i + 1)) := by
        rw [toNat_shiftRight_seven, hx, Nat.div_div_eq_div_mul, Nat.mul_add, Nat.pow_add]
      rw [encodeFrom_of_le (Nat.le_of_not_lt hsmall), List.cons_append, hstep,
        ih (by omega) hshift hnext (by omega), List.length_cons]
      congr 2
      omega

end Groups

theorem decode_encode (x : UInt64) (rest : List UInt8) :
    decode (encode x ++ rest) = (x, ((encode x).length : Int)) := by
  have h := @decodeFrom_encodeFrom x 0 x.toNat 0 rest (maxLength - 1) rfl x.toNat_lt
    (Nat.div_one _).symm (Nat.mod_one _).symm
  rwa [UInt64.ofNat_toNat, Nat.zero_add] at h

def size (x : UInt64) : Nat := x.toNat.log2 / 7 + 1

theorem size_of_lt (h : x.toNat < 128) : size x = 1 := by
  have hlog : x.toNat.log2 < 7 := by
    by_cases hzero : x.toNat = 0
    · rw [hzero]
      decide
    · exact (Nat.log2_lt hzero).mpr h
  rw [size, Nat.div_eq_of_lt hlog]

theorem size_of_le (h : 128 ≤ x.toNat) : size x = size (x >>> 7) + 1 := by
  have hne : x.toNat ≠ 0 := by omega
  have hlog : 7 ≤ x.toNat.log2 := (Nat.le_log2 hne).mpr h
  have hdiv : (x >>> 7).toNat.log2 = x.toNat.log2 - 7 := by
    rw [toNat_shiftRight_seven, Nat.log2_eq_log_two, Nat.log2_eq_log_two]
    exact Nat.log_div_base_pow 2 x.toNat 7
  rw [size, size, hdiv]
  omega

theorem length_encodeFrom {n : Nat} (h : x.toNat < 2 ^ (7 * (n + 1))) :
    (encodeFrom n x).length = size x := by
  induction n generalizing x with
  | zero =>
    rw [encodeFrom_of_lt h, size_of_lt h]
    rfl
  | succ n ih =>
    by_cases hsmall : x.toNat < 128
    · rw [encodeFrom_of_lt hsmall, size_of_lt hsmall]
      rfl
    · have hlarge : 128 ≤ x.toNat := Nat.le_of_not_lt hsmall
      have hshift : (x >>> 7).toNat < 2 ^ (7 * (n + 1)) := by
        rw [toNat_shiftRight_seven, Nat.div_lt_iff_lt_mul (by decide), ← Nat.pow_add 2 _ 7,
          show 7 * (n + 1) + 7 = 7 * (n + 1 + 1) by omega]
        exact h
      rw [encodeFrom_of_le hlarge, List.length_cons, ih hshift, size_of_le hlarge]

theorem length_encode (x : UInt64) : (encode x).length = size x :=
  length_encodeFrom (Nat.lt_trans x.toNat_lt (by decide))

theorem length_encode_pos (x : UInt64) : 0 < (encode x).length := by
  rw [length_encode]
  exact Nat.succ_pos _

theorem decodeFrom_le (data : List UInt8) (i : Nat) (x : UInt64) :
    (decodeFrom data i x).2 ≤ i + data.length := by
  induction data generalizing i x with
  | nil =>
    rw [decodeFrom]
    omega
  | cons b rest ih =>
    have hrest := ih (i + 1) (x ||| (b &&& 0x7f).toUInt64 <<< UInt64.ofNat (7 * i))
    rw [decodeFrom, List.length_cons]
    split_ifs <;> grind

theorem decodeFrom_le_maxLength (data : List UInt8) (hi : i ≤ maxLength) (x : UInt64) :
    (decodeFrom data i x).2 ≤ maxLength := by
  induction data generalizing i x with
  | nil =>
    rw [decodeFrom]
    omega
  | cons b rest ih =>
    rw [decodeFrom]
    split_ifs with hlong hlast hlarge
    · omega
    · omega
    · omega
    · exact ih (by omega) _

theorem decodeFrom_append {data : List UInt8} (more : List UInt8)
    (h : 0 < (decodeFrom data i x).2) : decodeFrom (data ++ more) i x = decodeFrom data i x := by
  induction data generalizing i x with
  | nil => exact absurd h (lt_irrefl 0)
  | cons b rest ih =>
    rw [decodeFrom] at h
    rw [List.cons_append, decodeFrom, decodeFrom]
    split_ifs at h ⊢ with hlong hlast hlarge
    · rfl
    · rfl
    · rfl
    · exact ih h

theorem decode_le (data : List UInt8) : (decode data).2 ≤ data.length := by
  have hle := decodeFrom_le data 0 0
  rwa [Nat.cast_zero, zero_add] at hle

theorem decode_le_maxLength (data : List UInt8) : (decode data).2 ≤ maxLength :=
  decodeFrom_le_maxLength data (Nat.zero_le _) 0

theorem decode_append (data more : List UInt8) (h : 0 < (decode data).2) :
    decode (data ++ more) = decode data :=
  decodeFrom_append more h

theorem lt_zero_iff (x : Int64) : x < 0 ↔ 2 ^ 63 ≤ x.toUInt64.toNat := by
  rw [Int64.lt_iff_toBitVec_slt]
  change x.toBitVec.slt 0#64 = true ↔ _
  rw [BitVec.slt_zero_iff_msb_cond, BitVec.msb_eq_decide, decide_eq_true_eq]
  rfl

theorem unzigzag_zigzag (x : Int64) : unzigzag (zigzag x) = x := by
  have hlt := x.toUInt64.toNat_lt
  have hdouble : (x.toUInt64 <<< 1).toNat = 2 * x.toUInt64.toNat % 2 ^ 64 := by
    rw [UInt64.toNat_shiftLeft]
    simp [Nat.shiftLeft_eq, Nat.mul_comm]
  have hodd (u : UInt64) : u &&& 1 ≠ 0 ↔ u.toNat % 2 = 1 := by
    rw [ne_eq, ← UInt64.toNat_inj, UInt64.toNat_and]
    simp [Nat.and_one_is_mod]
  have hhalf (u : UInt64) : (u >>> 1).toNat = u.toNat / 2 := by
    rw [UInt64.toNat_shiftRight]
    simp [Nat.shiftRight_eq_div_pow]
  have hinj (y : Int64) (h : y.toUInt64.toNat = x.toUInt64.toNat) : y = x := by
    cases x
    cases y
    exact congrArg Int64.ofUInt64 (UInt64.toNat_inj.mp h)
  apply hinj
  unfold unzigzag zigzag
  by_cases hneg : x < 0
  · have hhigh := (lt_zero_iff x).mp hneg
    have hnot : (~~~(x.toUInt64 <<< 1)).toNat = 2 ^ 65 - 1 - 2 * x.toUInt64.toNat := by
      rw [UInt64.toNat_not, hdouble, UInt64.size]
      omega
    simp only [hneg, if_true]
    rw [if_pos ((hodd _).mpr (by omega)), Int64.toUInt64_not, UInt64.toNat_not,
      UInt64.toUInt64_toInt64, hhalf, hnot, UInt64.size]
    omega
  · have hhigh := mt (lt_zero_iff x).mpr hneg
    simp only [hneg, if_false]
    rw [if_neg (by rw [hodd]; omega), UInt64.toUInt64_toInt64, hhalf, hdouble]
    omega

theorem decodeSigned_encodeSigned (x : Int64) (rest : List UInt8) :
    decodeSigned (encodeSigned x ++ rest) = (x, ((encodeSigned x).length : Int)) := by
  simp only [decodeSigned, encodeSigned, decode_encode, unzigzag_zigzag]

theorem decodeSigned_le (data : List UInt8) : (decodeSigned data).2 ≤ data.length :=
  decode_le data

theorem decodeSigned_append (data more : List UInt8) (h : 0 < (decodeSigned data).2) :
    decodeSigned (data ++ more) = decodeSigned data := by
  rw [decodeSigned, decode_append data more h, decodeSigned]

end Varint
