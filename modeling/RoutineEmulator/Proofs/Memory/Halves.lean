import Mathlib.Algebra.Group.Nat.Defs
import RoutineEmulator.Proofs.Memory.Words
/-!
Words and their halves.

A word of two, four or eight bytes lies in memory as its two halves one behind the other: the low
half first where the lowest byte comes first, and the high half first where the highest does. So
reading or writing a word is the same as reading or writing its halves, in either byte order and
over page boundaries.
-/

namespace RoutineEmulator

/-! ## Numbers and their bytes -/

theorem two_pow_bytes_succ (k : Nat) : 2 ^ (8 * (k + 1)) = 256 * 2 ^ (8 * k) := by
  rw [Nat.mul_succ, Nat.pow_add, Nat.mul_comm]

theorem natOfBytes_lt (bytes : List UInt8) : natOfBytes bytes < 2 ^ (8 * bytes.length) := by
  induction bytes with
  | nil => decide
  | cons byte rest ih =>
      have hbyte := byte.toNat_lt
      rw [natOfBytes, List.length_cons, two_pow_bytes_succ]
      omega

/-- Bytes that come later weigh more. -/
theorem natOfBytes_append (low high : List UInt8) :
    natOfBytes (low ++ high) = natOfBytes low + 2 ^ (8 * low.length) * natOfBytes high := by
  induction low with
  | nil => simp [natOfBytes]
  | cons byte rest ih =>
      rw [List.cons_append, natOfBytes, natOfBytes, ih, List.length_cons, two_pow_bytes_succ,
        Nat.mul_add, Nat.add_assoc, Nat.mul_assoc]

/-- The bytes behind the lowest ones are those of the quotient. -/
theorem bytesOfNat_add (k l n : Nat) :
    bytesOfNat (k + l) n = bytesOfNat k n ++ bytesOfNat l (n / 2 ^ (8 * k)) := by
  induction k generalizing n with
  | zero => rw [Nat.zero_add, Nat.mul_zero, Nat.pow_zero, Nat.div_one, bytesOfNat, List.nil_append]
  | succ k ih =>
      rw [Nat.succ_add, bytesOfNat, ih, bytesOfNat, List.cons_append, Nat.div_div_eq_div_mul,
        two_pow_bytes_succ]

/-- The lowest bytes of a number are those of its remainder. -/
theorem bytesOfNat_mod (k n : Nat) : bytesOfNat k (n % 2 ^ (8 * k)) = bytesOfNat k n := by
  induction k generalizing n with
  | zero => rfl
  | succ k ih =>
      have hbyte : UInt8.ofNat (n % (256 * 2 ^ (8 * k))) = UInt8.ofNat n := by
        apply UInt8.toNat_inj.mp
        rw [UInt8.toNat_ofNat', UInt8.toNat_ofNat', Nat.mod_mul_right_mod]
      rw [bytesOfNat, bytesOfNat, two_pow_bytes_succ, hbyte, Nat.mod_mul_right_div_self, ih]

/-- A pair that is given low part first, in the order of memory, and back. -/
def ByteOrder.arrangePair {α : Type} : ByteOrder → α × α → α × α
  | little, (low, high) => (low, high)
  | big, (low, high) => (high, low)

/-- Low bytes and high bytes are arranged each on their own. -/
theorem ByteOrder.arrange_append (order : ByteOrder) (low high : List UInt8) :
    order.arrange (low ++ high) =
      (order.arrangePair (order.arrange low, order.arrange high)).1 ++
        (order.arrangePair (order.arrange low, order.arrange high)).2 := by
  cases order
  · rfl
  · exact List.reverse_append

/-- The low and the high half of the lowest `2 * k` bytes of a value. -/
def halves (value : UInt64) (k : Nat) : UInt64 × UInt64 :=
  (lowBytes value k, lowBytes (UInt64.ofNat (value.toNat / 2 ^ (8 * k))) k)

/-- The bytes of a value are those of its low half, and then those of its high half. -/
theorem bytesOfNat_halves (value : UInt64) {k : Nat} (hk : k ≤ 8) :
    bytesOfNat (2 * k) value.toNat =
      bytesOfNat k (halves value k).1.toNat ++ bytesOfNat k (halves value k).2.toNat := by
  have hquotient :
      (UInt64.ofNat (value.toNat / 2 ^ (8 * k))).toNat = value.toNat / 2 ^ (8 * k) := by
    rw [UInt64.toNat_ofNat']
    exact Nat.mod_eq_of_lt (Nat.lt_of_le_of_lt (Nat.div_le_self _ _) value.toNat_lt)
  rw [Nat.two_mul, bytesOfNat_add, halves, toNat_lowBytes hk, toNat_lowBytes hk, hquotient,
    Nat.one_shiftLeft, bytesOfNat_mod, bytesOfNat_mod]

theorem isWordWidth_iff (size : Nat) :
    isWordWidth size = true ↔ size = 1 ∨ size = 2 ∨ size = 4 ∨ size = 8 := by
  simp [isWordWidth, or_assoc]

/-- Half of a width is a width. -/
theorem isWordWidth_of_double {k : Nat} (h : isWordWidth (2 * k) = true) :
    isWordWidth k = true ∧ 0 < k ∧ k ≤ 4 := by
  rw [isWordWidth_iff] at h ⊢
  omega

theorem toNat_add_ofNat {address : UInt64} {k : Nat} (h : address.toNat + k < 0x10000000000000000) :
    (address + UInt64.ofNat k).toNat = address.toNat + k := by
  rw [UInt64.toNat_add, UInt64.toNat_ofNat', Nat.mod_eq_of_lt (by omega),
    Nat.mod_eq_of_lt (by omega)]

namespace Memory

section

variable {m n : Memory} {address : UInt64}

/-! ## Ranges one behind the other -/

/-- A range is covered when its two parts are. -/
theorem covers_add_iff (allowed : Access → Bool) {k l : Nat} (hk : 0 < k) (hl : 0 < l)
    (hspace : address.toNat + k < 0x10000000000000000) :
    m.Covers allowed address (k + l) ↔
      m.Covers allowed address k ∧ m.Covers allowed (address + UInt64.ofNat k) l := by
  unfold Covers
  rw [toNat_add_ofNat hspace]
  constructor
  · rintro (hzero | ⟨hlast, hmax, hbytes⟩)
    · omega
    · exact ⟨.inr ⟨by omega, by omega, fun x hle hlt => hbytes x hle (by omega)⟩,
        .inr ⟨by omega, by omega, fun x hle hlt => hbytes x (by omega) (by omega)⟩⟩
  · rintro ⟨hzero | ⟨-, -, hfirst⟩, hzero' | ⟨hlast, hmax, hsecond⟩⟩
    · omega
    · omega
    · omega
    · refine .inr ⟨by omega, by omega, fun x hle hlt => ?_⟩
      by_cases hx : x < address.toNat + k
      · exact hfirst x hle hx
      · exact hsecond x (by omega) (by omega)

/-- A covered range does not wrap around. -/
theorem Covers.no_wrap {allowed : Access → Bool} {k l : Nat} (h : m.Covers allowed address (k + l))
    (hl : 0 < l) : address.toNat + k < 0x10000000000000000 := by
  rcases h with hzero | ⟨hlast, -, -⟩ <;> omega

theorem bytesFrom_add (m : Memory) (a k l : Nat) :
    m.bytesFrom a (k + l) = m.bytesFrom a k ++ m.bytesFrom (a + k) l := by
  unfold bytesFrom
  rw [← List.map_append, List.range'_append_1]

theorem setBytes_append (m : Memory) (a : Nat) (first second : List UInt8) :
    m.setBytes a (first ++ second) = (m.setBytes a first).setBytes (a + first.length) second := by
  induction first generalizing m a with
  | nil => rfl
  | cons byte rest ih =>
      rw [List.cons_append, setBytes, ih, setBytes, List.length_cons, Nat.add_assoc,
        Nat.add_comm 1]

/-- Bytes are written as a whole exactly where they can be written part by part. -/
theorem writeBytes_append_eq_ok_iff (m n : Memory) (address : UInt64) (first second : List UInt8)
    (hfirst : 0 < first.length) (hsecond : 0 < second.length) :
    m.writeBytes address (first ++ second) = .ok n ↔
      address.toNat + first.length < 0x10000000000000000 ∧
        ∃ between, m.writeBytes address first = .ok between ∧
          between.writeBytes (address + UInt64.ofNat first.length) second = .ok n := by
  simp only [writeBytes_eq_ok_iff, List.length_append, setBytes_append]
  constructor
  · rintro ⟨hcovers, rfl⟩
    have hspace := hcovers.no_wrap hsecond
    obtain ⟨hleft, hright⟩ := (covers_add_iff _ hfirst hsecond hspace).mp hcovers
    refine ⟨hspace, _, ⟨hleft, rfl⟩, (hleft.overwrites_setBytes.covers_iff _ _ _).mpr hright, ?_⟩
    rw [toNat_add_ofNat hspace]
  · rintro ⟨hspace, between, ⟨hleft, rfl⟩, hright, rfl⟩
    have hright := (hleft.overwrites_setBytes.covers_iff _ _ _).mp hright
    refine ⟨(covers_add_iff _ hfirst hsecond hspace).mpr ⟨hleft, hright⟩, ?_⟩
    rw [toNat_add_ofNat hspace]

/-! ## Halves of words -/

/-- A word is the number that its bytes spell. -/
theorem toNat_wordAt (m : Memory) (address : UInt64) {size : Nat} (hsize : size ≤ 8) :
    (m.wordAt address size).toNat =
      natOfBytes (m.byteOrder.arrange (m.bytesFrom address.toNat size)) := by
  have hlt := natOfBytes_lt (m.byteOrder.arrange (m.bytesFrom address.toNat size))
  rw [ByteOrder.length_arrange, length_bytesFrom] at hlt
  rw [wordAt, UInt64.toNat_ofNat']
  exact Nat.mod_eq_of_lt (Nat.lt_of_lt_of_le hlt (Nat.pow_le_pow_right (by decide) (by omega)))

/-- **A word is its two halves**, as far as the numbers go. -/
theorem toNat_wordAt_double (m : Memory) {k : Nat} (hk : k ≤ 4)
    (hspace : address.toNat + k < 0x10000000000000000) :
    (m.wordAt address (2 * k)).toNat =
      (m.byteOrder.arrangePair
          (m.wordAt address k, m.wordAt (address + UInt64.ofNat k) k)).1.toNat +
        2 ^ (8 * k) *
          (m.byteOrder.arrangePair
            (m.wordAt address k, m.wordAt (address + UInt64.ofNat k) k)).2.toNat := by
  have hword := m.toNat_wordAt address (show 2 * k ≤ 8 by omega)
  have hfirst := m.toNat_wordAt address (show k ≤ 8 by omega)
  have hsecond := m.toNat_wordAt (address + UInt64.ofNat k) (show k ≤ 8 by omega)
  rw [toNat_add_ofNat hspace] at hsecond
  rw [Nat.two_mul, bytesFrom_add] at hword
  cases horder : m.byteOrder with
  | little =>
      rw [horder] at hword hfirst hsecond
      simp only [ByteOrder.arrange, natOfBytes_append, length_bytesFrom] at hword hfirst hsecond
      rw [Nat.two_mul, hword, ByteOrder.arrangePair, hfirst, hsecond]
  | big =>
      rw [horder] at hword hfirst hsecond
      simp only [ByteOrder.arrange, List.reverse_append, natOfBytes_append, List.length_reverse,
        length_bytesFrom] at hword hfirst hsecond
      rw [Nat.two_mul, hword, ByteOrder.arrangePair, hfirst, hsecond]

/-- Where a word is read, so are its halves. -/
theorem readWord_double {word : UInt64} {k : Nat} (hwidth : isWordWidth (2 * k) = true)
    (h : m.readWord address (2 * k) = .ok word) :
    ∃ first second, m.readWord address k = .ok first ∧
      m.readWord (address + UInt64.ofNat k) k = .ok second ∧
      word.toNat = (m.byteOrder.arrangePair (first, second)).1.toNat +
        2 ^ (8 * k) * (m.byteOrder.arrangePair (first, second)).2.toNat := by
  obtain ⟨hhalf, hpos, hle⟩ := isWordWidth_of_double hwidth
  have hcovers := covers_of_readWord hwidth h
  rw [readWord_of_covers hwidth hcovers] at h
  obtain rfl := Except.ok.inj h
  rw [Nat.two_mul] at hcovers
  have hspace := hcovers.no_wrap hpos
  obtain ⟨hleft, hright⟩ := (covers_add_iff _ hpos hpos hspace).mp hcovers
  exact ⟨_, _, readWord_of_covers hhalf hleft, readWord_of_covers hhalf hright,
    toNat_wordAt_double m hle hspace⟩

theorem writeWord_of_isWordWidth (m : Memory) (address value : UInt64) {size : Nat}
    (hsize : isWordWidth size = true) :
    m.writeWord address value size =
      m.writeBytes address (m.byteOrder.arrange (bytesOfNat size value.toNat)) := by
  rw [writeWord, checkWidth_of_isWordWidth hsize]
  rfl

/-- **A word is written as its two halves**, one behind the other. -/
theorem writeWord_double_eq_ok_iff (m n : Memory) (address value : UInt64) {k : Nat}
    (hwidth : isWordWidth (2 * k) = true) :
    m.writeWord address value (2 * k) = .ok n ↔
      address.toNat + k < 0x10000000000000000 ∧
        ∃ between,
          m.writeWord address (m.byteOrder.arrangePair (halves value k)).1 k = .ok between ∧
          between.writeWord (address + UInt64.ofNat k)
            (m.byteOrder.arrangePair (halves value k)).2 k = .ok n := by
  obtain ⟨hhalf, hpos, hle⟩ := isWordWidth_of_double hwidth
  have hbytes : ∀ order : ByteOrder, order.arrange (bytesOfNat (2 * k) value.toNat) =
      order.arrange (bytesOfNat k (order.arrangePair (halves value k)).1.toNat) ++
        order.arrange (bytesOfNat k (order.arrangePair (halves value k)).2.toNat) := by
    intro order
    rw [bytesOfNat_halves value (by omega), ByteOrder.arrange_append]
    cases order <;> rfl
  have hlen : ∀ half, (m.byteOrder.arrange (bytesOfNat k half)).length = k := by
    simp
  have hparts := fun low high => writeBytes_append_eq_ok_iff m n address
    (m.byteOrder.arrange (bytesOfNat k low)) (m.byteOrder.arrange (bytesOfNat k high))
    (by rwa [hlen]) (by rwa [hlen])
  simp only [hlen] at hparts
  rw [writeWord_of_isWordWidth m address value hwidth, hbytes, hparts,
    writeWord_of_isWordWidth m address _ hhalf]
  refine and_congr_right fun _ => exists_congr fun between => and_congr_right fun hbetween => ?_
  -- the first write keeps the byte order that the second one goes by
  rw [writeWord_of_isWordWidth between _ _ hhalf, (overwrites_of_writeBytes hbetween).byteOrder]

/-- A word that was written reads back as its low bytes, and no other byte is different. -/
theorem readWord_of_writeWord {value : UInt64} {size : Nat} (hwidth : isWordWidth size = true)
    (h : m.writeWord address value size = .ok n) :
    (∀ x, x < address.toNat ∨ address.toNat + size ≤ x → n.byteAt? x = m.byteAt? x) ∧
      (m.Covers (·.read) address size → ∃ word, n.readWord address size = .ok word ∧
        word.toNat = value.toNat % 2 ^ (8 * size)) := by
  have hover := overwrites_of_writeWord h
  have hlen : (m.byteOrder.arrange (bytesOfNat size value.toNat)).length = size := by simp
  refine ⟨fun x hx => hover.outside x (by rwa [hlen]), fun hreadable => ?_⟩
  have hle : size ≤ 8 := by
    rw [isWordWidth_iff] at hwidth
    omega
  refine ⟨_, hover.readWord_of_same hwidth hreadable, ?_⟩
  rw [toNat_lowBytes hle, Nat.one_shiftLeft]

theorem checkWidth_of_not_isWordWidth {size : Nat} (h : isWordWidth size = false) :
    checkWidth size = .error (.unsupportedWidth size) := by
  rw [checkWidth, if_neg (by simp [h])]

/-- **Words of all widths fit together.** A word that was written reads back modulo its width, where
it may be read at all, and bytes outside of it are kept. A word of two, four or eight bytes is read
as its two halves, and it is written exactly where its two halves are written one behind the other,
with the same memory; the halves are exchanged where the highest byte comes first. Any other width
is refused, and nothing changes. -/
theorem words_by_halves (m : Memory) (address value : UInt64) :
    (∀ size n, isWordWidth size = true → m.writeWord address value size = .ok n →
      (∀ x, x < address.toNat ∨ address.toNat + size ≤ x → n.byteAt? x = m.byteAt? x) ∧
        (m.Covers (·.read) address size → ∃ word, n.readWord address size = .ok word ∧
          word.toNat = value.toNat % 2 ^ (8 * size))) ∧
    (∀ k, isWordWidth (2 * k) = true →
      (∀ word, m.readWord address (2 * k) = .ok word →
        ∃ first second, m.readWord address k = .ok first ∧
          m.readWord (address + UInt64.ofNat k) k = .ok second ∧
          word.toNat = (m.byteOrder.arrangePair (first, second)).1.toNat +
            2 ^ (8 * k) * (m.byteOrder.arrangePair (first, second)).2.toNat) ∧
      ∀ n, m.writeWord address value (2 * k) = .ok n ↔
        address.toNat + k < 0x10000000000000000 ∧
          ∃ between,
            m.writeWord address (m.byteOrder.arrangePair (halves value k)).1 k = .ok between ∧
            between.writeWord (address + UInt64.ofNat k)
              (m.byteOrder.arrangePair (halves value k)).2 k = .ok n) ∧
    ∀ size, isWordWidth size = false →
      m.readWord address size = .error (.unsupportedWidth size) ∧
        ∀ (σ : Type) (bench : Bench σ), bench.machine.memory = m →
          (Work.change (·.write address value size)).runOn bench =
            (.error (.unsupportedWidth size), bench) := by
  refine ⟨fun size n => readWord_of_writeWord, fun k hwidth => ⟨fun word => readWord_double hwidth,
    fun n => writeWord_double_eq_ok_iff m n address value hwidth⟩, fun size hwidth => ?_⟩
  have hrefused := checkWidth_of_not_isWordWidth hwidth
  constructor
  · rw [readWord, hrefused]
    rfl
  · rintro σ ⟨own, s, log⟩ rfl
    apply Work.runOn_change_of_error
    rw [Machine.write, writeWord, hrefused]
    rfl

end

end Memory

end RoutineEmulator
