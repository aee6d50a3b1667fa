import RoutineEmulator.Proofs.Memory.Halves
import RoutineEmulator.Proofs.Simulation.Transfers
/-!
Texts in memory.

A text is what stands before the first zero byte. The library finds it byte by byte, and the
addresses wrap round on the way. `TextAt` says what it finds, and where it finds nothing. A copy
that takes the zero along takes the text, since a copy does not look at how its two ranges lie.
-/

namespace RoutineEmulator

open Memory

namespace Memory

/-! ## Single bytes -/

/-- The byte at an address may be read, and it is this one. -/
def ReadsAs (m : Memory) (address : UInt64) (byte : UInt8) : Prop :=
  m.Covers (·.read) address 1 ∧ m.byteAt? address.toNat = some byte

theorem ReadsAs.unique {m : Memory} {address : UInt64} {byte byte' : UInt8}
    (h : m.ReadsAs address byte) (h' : m.ReadsAs address byte') : byte = byte' :=
  Option.some.inj (h.2.symm.trans h'.2)

/-- A word of one byte is that byte, in either order. -/
theorem readWord_one_eq_ok_iff {m : Memory} {address value : UInt64} :
    m.readWord address 1 = .ok value ↔ ∃ byte, m.ReadsAs address byte ∧ value = byte.toUInt64 := by
  have hword : ∀ byte, m.byteAt? address.toNat = some byte →
      m.wordAt address 1 = byte.toUInt64 := by
    intro byte hbyte
    have hbytes : m.bytesFrom address.toNat 1 = [byte] := by simp [bytesFrom, hbyte]
    have harrange : m.byteOrder.arrange [byte] = [byte] := by cases m.byteOrder <;> rfl
    rw [wordAt, hbytes, harrange, natOfBytes, natOfBytes, Nat.mul_zero, Nat.add_zero,
      UInt64.ofNat_uInt8ToNat]
  constructor
  · intro h
    have hcovers := covers_of_readWord rfl h
    obtain ⟨byte, hbyte⟩ := hcovers.exists_byteAt? (i := 0) (by decide)
    rw [readWord_of_covers rfl hcovers, hword byte hbyte] at h
    exact ⟨byte, ⟨hcovers, hbyte⟩, (Except.ok.inj h).symm⟩
  · rintro ⟨byte, ⟨hcovers, hbyte⟩, rfl⟩
    rw [readWord_of_covers rfl hcovers, hword byte hbyte]

/-- A byte of a range that may be read is read as what stands there. -/
theorem Covers.readsAs {m : Memory} {address : UInt64} {size i : Nat} {byte : UInt8}
    (h : m.Covers (·.read) address size) (hi : i < size)
    (hbyte : m.byteAt? (address.toNat + i) = some byte) :
    m.ReadsAs (address + UInt64.ofNat i) byte := by
  rcases h with hzero | ⟨hlast, hmax, hbytes⟩
  · omega
  · have hplace : (address + UInt64.ofNat i).toNat = address.toNat + i :=
      toNat_add_ofNat (by omega)
    refine ⟨.inr ?_, by rwa [hplace]⟩
    rw [hplace]
    exact ⟨by omega, by omega, fun x hle hlt => hbytes x (by omega) (by omega)⟩

/-! ## Texts -/

/-- A text of `length` bytes: all of them may be read and none is zero, and a zero follows. The
addresses wrap round. -/
structure TextAt (m : Memory) (start : UInt64) (length : Nat) : Prop where
  body : ∀ i < length, ∃ byte, m.ReadsAs (start + UInt64.ofNat i) byte ∧ byte ≠ 0
  ending : m.ReadsAs (start + UInt64.ofNat length) 0

/-- A text that is copied together with its zero is a text again, wherever the copy lies. -/
theorem TextAt.copied {m n : Memory} {src dst : UInt64} {length : Nat} (h : m.TextAt src length)
    (hsrc : m.Covers (·.read) src (length + 1)) (hdst : n.Covers (·.read) dst (length + 1))
    (hcopies : m.Copies n src.toNat dst.toNat (length + 1)) : n.TextAt dst length := by
  have harrives : ∀ i < length + 1, ∀ byte, m.ReadsAs (src + UInt64.ofNat i) byte →
      n.ReadsAs (dst + UInt64.ofNat i) byte := by
    intro i hi byte hread
    obtain ⟨byte', hbefore, hafter⟩ := hcopies.bytes i hi
    rw [hread.unique (hsrc.readsAs hi hbefore)]
    exact hdst.readsAs hi hafter
  refine ⟨fun i hi => ?_, harrives length (by omega) 0 h.ending⟩
  obtain ⟨byte, hread, hne⟩ := h.body i hi
  exact ⟨byte, harrives i (by omega) byte hread, hne⟩

end Memory

namespace Libc

open Work

/-! ## Finding the end -/

section

variable (s : Machine) (start : UInt64) (left len : Nat)

/-- The search ends at a zero and goes on behind any other byte. -/
theorem textLength_of_readsAs {byte : UInt8}
    (h : s.memory.ReadsAs (start + UInt64.ofNat len) byte) :
    textLength s start (left + 1) len =
      if byte = 0 then .ok len else textLength s start left (len + 1) := by
  have hread : s.read (start + UInt64.ofNat len) 1 = .ok byte.toUInt64 :=
    readWord_one_eq_ok_iff.mpr ⟨byte, h, rfl⟩
  have hzero : byte.toUInt64 = 0 ↔ byte = 0 := by
    rw [← UInt64.toNat_inj, ← UInt8.toNat_inj, UInt8.toNat_toUInt64]
    rfl
  rw [textLength, hread]
  simp only [hzero]

theorem exists_textLength_eq_error
    (h : ∀ byte, ¬ s.memory.ReadsAs (start + UInt64.ofNat len) byte) :
    ∃ e, textLength s start (left + 1) len = .error e := by
  rw [textLength]
  cases hread : s.read (start + UInt64.ofNat len) 1 with
  | error e => exact ⟨e, rfl⟩
  | ok value =>
      obtain ⟨byte, hbyte, -⟩ := readWord_one_eq_ok_iff.mp hread
      exact absurd hbyte (h byte)

/-- A search that knows the first `len` bytes ends at the first zero behind them, if that is among
the next `left` ones. -/
theorem textLength_eq_ok_iff (length : Nat) :
    textLength s start left len = .ok length ↔
      len ≤ length ∧ length < len + left ∧
        (∀ i, len ≤ i → i < length →
          ∃ byte, s.memory.ReadsAs (start + UInt64.ofNat i) byte ∧ byte ≠ 0) ∧
        s.memory.ReadsAs (start + UInt64.ofNat length) 0 := by
  induction left generalizing len with
  | zero =>
      constructor
      · intro h
        cases h
      · rintro ⟨hle, hlt, -⟩
        omega
  | succ left ih =>
      by_cases hread : ∃ byte, s.memory.ReadsAs (start + UInt64.ofNat len) byte
      · obtain ⟨byte, hbyte⟩ := hread
        rw [textLength_of_readsAs s start left len hbyte]
        split
        · rename_i hzero
          subst hzero
          constructor
          · intro h
            obtain rfl := Except.ok.inj h
            exact ⟨Nat.le_refl _, by omega, fun i hle hlt => by omega, hbyte⟩
          · rintro ⟨hle, -, hbody, -⟩
            rcases Nat.eq_or_lt_of_le hle with rfl | hlt
            · rfl
            · obtain ⟨byte', hbyte', hne⟩ := hbody len (Nat.le_refl len) hlt
              exact absurd (hbyte'.unique hbyte) hne
        · rename_i hne
          rw [ih]
          constructor
          · rintro ⟨hle, hlt, hbody, hending⟩
            refine ⟨by omega, by omega, fun i hi hi' => ?_, hending⟩
            rcases Nat.eq_or_lt_of_le hi with rfl | hgt
            · exact ⟨byte, hbyte, hne⟩
            · exact hbody i hgt hi'
          · rintro ⟨hle, hlt, hbody, hending⟩
            have hbehind : len ≠ length := by
              rintro rfl
              exact hne (hbyte.unique hending)
            exact ⟨by omega, by omega, fun i hi hi' => hbody i (by omega) hi', hending⟩
      · obtain ⟨e, herror⟩ :=
          exists_textLength_eq_error s start left len (not_exists.mp hread)
        rw [herror]
        constructor
        · intro h
          cases h
        · rintro ⟨hle, -, hbody, hending⟩
          -- whether the text ends here or goes on, its byte could be read
          refine absurd ?_ hread
          rcases Nat.eq_or_lt_of_le hle with rfl | hlt
          · exact ⟨0, hending⟩
          · obtain ⟨byte, hbyte, -⟩ := hbody len (Nat.le_refl len) hlt
            exact ⟨byte, hbyte⟩

end

theorem textLength_zero_eq_ok_iff (s : Machine) (start : UInt64) (length : Nat) :
    textLength s start maxTextLength 0 = .ok length ↔
      length < maxTextLength ∧ s.memory.TextAt start length := by
  rw [textLength_eq_ok_iff, Nat.zero_add]
  constructor
  · rintro ⟨-, hlt, hbody, hending⟩
    exact ⟨hlt, fun i => hbody i (Nat.zero_le i), hending⟩
  · rintro ⟨hlt, hbody, hending⟩
    exact ⟨Nat.zero_le _, hlt, fun i _ => hbody i, hending⟩

/-- The search looks at the machine and changes nothing. -/
theorem runOn_strlen (start : Int64) (bench : Bench Libc) :
    (Function.strlen.run [start]).runOn bench =
      ((textLength bench.machine start.toUInt64 maxTextLength 0).map Int64.ofNat, bench) := by
  obtain ⟨own, s, log⟩ := bench
  show (Libc.strlen start).runOn _ = _
  unfold Libc.strlen
  rw [runOn_ask_bind]
  cases textLength s start.toUInt64 maxTextLength 0 <;> rfl

theorem runOn_strlen_eq_ok_iff (start answer : Int64) (bench : Bench Libc) :
    (Function.strlen.run [start]).runOn bench = (.ok answer, bench) ↔
      ∃ length, answer = Int64.ofNat length ∧ length < maxTextLength ∧
        bench.machine.memory.TextAt start.toUInt64 length := by
  rw [runOn_strlen, Prod.mk.injEq, and_iff_left rfl]
  simp only [← textLength_zero_eq_ok_iff]
  cases textLength bench.machine start.toUInt64 maxTextLength 0 with
  | error e => simp [Except.map]
  | ok length => simp [Except.map, eq_comm]

/-- **The length of a text is the place of its first zero.** The search answers exactly where a text
of less than 2^20 bytes starts, and with its length. Once the text was copied together with its
zero, the search finds the same length at the destination, also where the two ranges overlap. -/
theorem strlen_finds_first_zero (bench : Bench Libc) :
    (∀ start answer : Int64,
      (Function.strlen.run [start]).runOn bench = (.ok answer, bench) ↔
        ∃ length, answer = Int64.ofNat length ∧ length < 0x100000 ∧
          bench.machine.memory.TextAt start.toUInt64 length) ∧
    (∀ (start dst length answer : Int64) (after : Bench Libc),
      ((Function.strlen.run [start]).runOn bench).1 = .ok length →
      (Function.memcpy.run [dst, start, length + 1]).runOn bench = (.ok answer, after) →
      after.machine.memory.Covers (·.read) dst.toUInt64 (length.toInt.toNat + 1) →
      (Function.strlen.run [dst]).runOn after = (.ok length, after)) := by
  refine ⟨fun start answer => runOn_strlen_eq_ok_iff start answer bench, ?_⟩
  intro start dst length answer after hlength hcopy hreadable
  have hfound : (Function.strlen.run [start]).runOn bench = (.ok length, bench) := by
    rw [runOn_strlen] at hlength ⊢
    exact Prod.ext hlength rfl
  obtain ⟨k, rfl, hk, htext⟩ := (runOn_strlen_eq_ok_iff start length bench).mp hfound
  have hcount : ∀ j ≤ maxTextLength, (Int64.ofNat j).toInt.toNat = j := by
    intro j hj
    rw [Int64.toInt_ofNat_of_lt (Nat.lt_of_le_of_lt hj (by decide)), Int.toNat_natCast]
  rw [hcount k (by omega)] at hreadable
  have htransfer := (transfers_counted
    (fun size => transfers_copy bench start.toUInt64 dst.toUInt64 size) dst
    (Int64.ofNat k + 1)).1
  have hsucc : Int64.ofNat k + 1 = Int64.ofNat (k + 1) := (Int64.ofNat_add k 1).symm
  rw [hsucc] at hcopy
  rw [hsucc, hcount (k + 1) (by omega)] at htransfer
  rcases htransfer with ⟨⟨-, hread, -⟩, n, hcopies, hrun⟩ | ⟨-, address, size, hrun⟩
  · obtain ⟨-, rfl⟩ := Prod.mk.inj (hrun.symm.trans hcopy)
    exact (runOn_strlen_eq_ok_iff dst _ _).mpr ⟨k, rfl, hk, htext.copied hread hreadable hcopies⟩
  · cases (Prod.mk.inj (hrun.symm.trans hcopy)).1

/-- A bench with one page of memory and a text of two bytes in it. -/
def twoByteTextBench : Bench Libc where
  own := {}
  machine :=
    .new {} (((Memory.new .little 64).mapPages .readWrite [2]).setBytes 0x2000 [97, 98, 0])

/-- A text that is moved up by one byte, over itself, keeps its length. -/
theorem strlen_finds_first_zero_shifted :
    ∃ after, ((Function.strlen.run [0x2000]).runOn twoByteTextBench).1 = .ok 2 ∧
      (Function.memcpy.run [0x2001, 0x2000, 2 + 1]).runOn twoByteTextBench =
        (.ok 0x2001, after) ∧
      after.machine.memory.Covers (·.read) 0x2001 3 ∧
      (Function.strlen.run [0x2001]).runOn after = (.ok 2, after) := by
  obtain ⟨after, hcopy, hreadable⟩ : ∃ after,
      (Function.memcpy.run [0x2001, 0x2000, 2 + 1]).runOn twoByteTextBench =
          (.ok 0x2001, after) ∧
        after.machine.memory.accessible (·.read) 0x2001 3 = true := ⟨_, rfl, rfl⟩
  have hlength : ((Function.strlen.run [0x2000]).runOn twoByteTextBench).1 = .ok 2 := rfl
  have hcovers := (after.machine.memory.accessible_iff (·.read) 0x2001 3).mp hreadable
  exact ⟨after, hlength, hcopy, hcovers,
    (strlen_finds_first_zero _).2 0x2000 0x2001 2 0x2001 after hlength hcopy hcovers⟩

end Libc

end RoutineEmulator
