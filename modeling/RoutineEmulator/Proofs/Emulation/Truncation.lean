import RoutineEmulator.Emulation.Evaluation
import RoutineEmulator.Proofs.Machine.Access
import RoutineEmulator.Proofs.Memory.SignExtension
import RoutineEmulator.Proofs.Simulation.Work
import RoutineEmulator.Proofs.Types.Signatures
/-!
Truncation to a type.

A value is cut to the size of a type in four places: by a conversion, in a register, in memory, and
through a pointer, where it is extended by its sign. The laws here say what each of them gives, and
that all of them keep the same low bytes.
-/

namespace RoutineEmulator

namespace Machine

open Memory

variable {s : Machine} {type : String} {var : Identifier} {address : UInt64} {size : Nat}

theorem typeSize_of_sizeOf? (h : s.types.sizeOf? type = some size) :
    s.typeSize type = .ok size := by
  rw [typeSize, h]

/-- What a pointer to a type points to has the size of the type. -/
theorem baseTypeSize_star (h : s.types.sizeOf? type = some size) :
    s.baseTypeSize (type ++ "*") = .ok size := by
  obtain ⟨base, hbase, hsize⟩ := s.types.exists_baseSignature? type
  rw [baseTypeSize, hbase]
  dsimp only
  rw [hsize, h]

/-! ## Variables -/

/-- A register takes the low bytes of what is stored. -/
theorem setVarValue_of_register (hstorage : var.storage = .register ∨ var.storage = .parameter)
    (htype : s.types.sizeOf? var.type = some size) (hsize : isWordWidth size = true)
    (value : UInt64) :
    s.setVarValue var value = .ok (s.setRegister var.id (lowBytes value size)) := by
  have hset : s.setRegisterSized var.id value size =
      .ok (s.setRegister var.id (lowBytes value size)) := by
    rw [setRegisterSized, checkWidth_of_isWordWidth hsize]
    rfl
  rw [setVarValue, typeSize_of_sizeOf? htype]
  rcases hstorage with hstorage | hstorage <;> rw [hstorage] <;> exact hset

theorem varValue_setRegister (hstorage : var.storage = .register ∨ var.storage = .parameter)
    (value : UInt64) : (s.setRegister var.id value).varValue var = .ok (some value) := by
  have hget : (s.setRegister var.id value).register? var.id = some value :=
    Std.ExtTreeMap.getElem?_insert_self
  rcases hstorage with hstorage | hstorage <;> simp only [varValue, hstorage, hget]

/-- Only variables in memory have an address. -/
theorem storage_of_varAddress (hplace : s.varAddress var = .ok address) :
    var.storage = .local ∨ var.storage = .global := by
  cases hstorage : var.storage with
  | «local» => exact .inl rfl
  | global => exact .inr rfl
  | register | parameter =>
      rw [varAddress, hstorage] at hplace
      cases hplace

theorem setVarValue_of_varAddress (hplace : s.varAddress var = .ok address)
    (htype : s.types.sizeOf? var.type = some size) (value : UInt64) :
    s.setVarValue var value = s.write address value size := by
  rw [setVarValue, typeSize_of_sizeOf? htype, hplace]
  rcases storage_of_varAddress hplace with hstorage | hstorage <;> rw [hstorage] <;> rfl

theorem varValue_of_varAddress (hplace : s.varAddress var = .ok address)
    (htype : s.types.sizeOf? var.type = some size) :
    s.varValue var = some <$> s.read address size := by
  rw [varValue, typeSize_of_sizeOf? htype, hplace]
  rcases storage_of_varAddress hplace with hstorage | hstorage <;> rw [hstorage] <;> rfl

/-- Memory takes the low bytes of what is stored, too, and nothing but memory is different. -/
theorem exists_setVarValue_of_covers (hplace : s.varAddress var = .ok address)
    (htype : s.types.sizeOf? var.type = some size) (hsize : isWordWidth size = true)
    (hwrite : s.memory.Covers (·.write) address size)
    (hread : s.memory.Covers (·.read) address size) (value : UInt64) :
    ∃ n, s.setVarValue var value = .ok (s.withMemory n) ∧
      (s.withMemory n).read address size = .ok (lowBytes value size) := by
  obtain ⟨n, hstore, hover⟩ := exists_write value hsize hwrite
  exact ⟨n, (setVarValue_of_varAddress hplace htype value).trans hstore,
    hover.readWord_of_same hsize hread⟩

end Machine

/-! ## Conversions -/

/-- A conversion keeps the low bytes of the value. -/
theorem truncateTo_of_isWordWidth {size : Nat} (hsize : isWordWidth size = true) (value : Int64) :
    truncateTo size value = (lowBytes value.toUInt64 size).toInt64 := by
  rw [truncateTo]
  split
  · rename_i hlarge
    obtain rfl : size = 8 := by
      have := (isWordWidth_iff size).mp hsize
      omega
    rw [lowBytes_eight, Int64.toInt64_toUInt64]
  · rfl

namespace Evaluation

open Work

variable (r : Draft)

/-- Stores a value in a variable, and evaluates another expression after that. -/
def storeThenEval (id : IdentId) (value look : Expr) : Run Int64 := do
  assign r (.ident id) value
  eval r look

section

variable {r} {session : Session} {e : Expr} {value : Int64} {id : IdentId} {var : Identifier}
  {type : String} {size : Nat}

theorem runOn_identOf (h : r.ident? id = some var) :
    (identOf r id).runOn session = (.ok var, session) := by
  rw [identOf, h]
  rfl

/-- The value of a variable is the one that the machine has for it. -/
theorem runOn_eval_ident (h : r.ident? id = some var) {word : UInt64}
    (hvalue : session.machine.varValue var = .ok (some word)) :
    (eval r (.ident id)).runOn session = (.ok word.toInt64, session) := by
  rw [eval, readIdent, runOn_bind_of_ok (runOn_identOf h),
    runOn_bind_of_ok (runOn_ask_of_ok hvalue)]
  rfl

theorem runOn_eval_cast (htype : session.machine.types.sizeOf? type = some size)
    (hsize : isWordWidth size = true) (heval : (eval r e).runOn session = (.ok value, session)) :
    (eval r (.op (.cast type) [e])).runOn session =
      (.ok (lowBytes value.toUInt64 size).toInt64, session) := by
  have hwidth : (ask (·.typeSize type)).runOn session = (.ok size, session) :=
    runOn_ask_of_ok (Machine.typeSize_of_sizeOf? htype)
  rw [eval, runOn_bind_of_ok hwidth, runOn_bind_of_ok heval, truncateTo_of_isWordWidth hsize]
  rfl

theorem runOn_eval_ref (h : r.ident? id = some var) {address : UInt64}
    (hplace : session.machine.varAddress var = .ok address) :
    (eval r (.op .ref [.ident id])).runOn session = (.ok address.toInt64, session) := by
  rw [eval, runOn_bind_of_ok (runOn_identOf h), runOn_bind_of_ok (runOn_ask_of_ok hplace)]
  rfl

theorem runOn_load {target : DerefTarget} {word : UInt64}
    (hread : session.machine.read target.address target.size = .ok word) :
    (load target).runOn session =
      (.ok (if target.signed then signExtend word target.size else word.toInt64), session) := by
  rw [load, runOn_bind_of_ok runOn_machine, Machine.readOrZero, hread]
  rfl

/-- What a pointer to a type finds is extended by its sign. -/
theorem runOn_eval_deref_cast {address word : UInt64}
    (htype : session.machine.types.sizeOf? type = some size)
    (heval : (eval r e).runOn session = (.ok address.toInt64, session))
    (hread : session.machine.read address size = .ok word) :
    (eval r (.op .ptr [.op (.cast (type ++ "*")) [e]])).runOn session =
      (.ok (signExtend word size), session) := by
  have hwidth : (ask (·.baseTypeSize (type ++ "*"))).runOn session = (.ok size, session) :=
    runOn_ask_of_ok (Machine.baseTypeSize_star htype)
  have htarget : (targetOf (ask (·.baseTypeSize (type ++ "*"))) (eval r e) true).runOn session =
      (.ok ⟨address, size, true⟩, session) := by
    rw [targetOf, runOn_bind_of_ok hwidth, runOn_bind_of_ok heval, UInt64.toUInt64_toInt64]
    rfl
  rw [eval, runOn_bind_of_ok htarget, runOn_load hread]
  rfl

/-! ## Stores -/

theorem runOn_assign_ident (h : r.ident? id = some var) {s : Machine}
    (heval : (eval r e).runOn session = (.ok value, session))
    (hset : session.machine.setVarValue var value.toUInt64 = .ok s) :
    (assign r (.ident id) e).runOn session = (.ok (), { session with machine := s }) := by
  rw [assign, runOn_bind_of_ok heval]
  show runOn (identOf r id >>= fun ident => _) session = _
  rw [runOn_bind_of_ok (runOn_identOf h)]
  exact runOn_change_of_ok hset

/-- A variable in a register reads back as the low bytes of what was stored. -/
theorem runOn_storeThenEval_register (h : r.ident? id = some var)
    (hstorage : var.storage = .register ∨ var.storage = .parameter)
    (htype : session.machine.types.sizeOf? var.type = some size) (hsize : isWordWidth size = true)
    (heval : (eval r e).runOn session = (.ok value, session)) :
    ((storeThenEval r id e (.ident id)).runOn session).1 =
      .ok (lowBytes value.toUInt64 size).toInt64 := by
  obtain ⟨own, s, log⟩ := session
  have hstore := s.setVarValue_of_register hstorage htype hsize value.toUInt64
  have hlook : (eval r (.ident id)).runOn
      ⟨own, s.setRegister var.id (lowBytes value.toUInt64 size), log⟩ = _ :=
    runOn_eval_ident h (Machine.varValue_setRegister hstorage _)
  rw [storeThenEval, runOn_bind_of_ok (runOn_assign_ident h heval hstore), hlook]

/-- A variable in memory reads back as the low bytes of what was stored; through a pointer to its
type they are extended by their sign. -/
theorem runOn_storeThenEval_memory (h : r.ident? id = some var) {address : UInt64}
    (hplace : session.machine.varAddress var = .ok address)
    (htype : session.machine.types.sizeOf? var.type = some size) (hsize : isWordWidth size = true)
    (hwrite : session.machine.memory.Covers (·.write) address size)
    (hread : session.machine.memory.Covers (·.read) address size)
    (heval : (eval r e).runOn session = (.ok value, session)) :
    ((storeThenEval r id e (.ident id)).runOn session).1 =
        .ok (lowBytes value.toUInt64 size).toInt64 ∧
      ((storeThenEval r id e
          (.op .ptr [.op (.cast (var.type ++ "*")) [.op .ref [.ident id]]])).runOn session).1 =
        .ok (signExtend (lowBytes value.toUInt64 size) size) := by
  obtain ⟨own, s, log⟩ := session
  obtain ⟨n, hstore, hword⟩ := Machine.exists_setVarValue_of_covers hplace htype hsize hwrite hread
    value.toUInt64
  have hassign := runOn_assign_ident h heval hstore
  -- neither the address of the variable nor the size of its type depends on the memory
  have hplace' : (s.withMemory n).varAddress var = .ok address := hplace
  have htype' : (s.withMemory n).types.sizeOf? var.type = some size := htype
  have hvalue : (s.withMemory n).varValue var = .ok (some (lowBytes value.toUInt64 size)) := by
    rw [Machine.varValue_of_varAddress hplace' htype', hword]
    rfl
  have hlook : (eval r (.ident id)).runOn ⟨own, s.withMemory n, log⟩ = _ :=
    runOn_eval_ident h hvalue
  have hderef : (eval r (.op .ptr [.op (.cast (var.type ++ "*")) [.op .ref [.ident id]]])).runOn
      ⟨own, s.withMemory n, log⟩ = _ :=
    runOn_eval_deref_cast htype' (runOn_eval_ref h hplace') hword
  constructor
  · rw [storeThenEval, runOn_bind_of_ok hassign, hlook]
  · rw [storeThenEval, runOn_bind_of_ok hassign, hderef]

/-- **All truncations agree.** A value is converted to a type, stored in a register of that type, or
stored in a global of that type in memory that can be read and written. Whatever the byte order,
conversion, register and global all give its low bytes, and a pointer to the type that is made of
the address of the global gives the one signed number that has these bytes. -/
theorem truncations_agree (r : Draft) (session : Session) (type : String) {size : Nat}
    (htype : session.machine.types.sizeOf? type = some size) (hsize : isWordWidth size = true)
    {e : Expr} {value : Int64} (heval : (eval r e).runOn session = (.ok value, session))
    {reg cell : IdentId} {var global : Identifier}
    (hreg : r.ident? reg = some var) (hvar : var.type = type)
    (hregister : var.storage = .register ∨ var.storage = .parameter)
    (hcell : r.ident? cell = some global) (hglobal : global.type = type)
    (hstorage : global.storage = .global)
    (hwrite : session.machine.memory.Covers (·.write) global.address.toUInt64 size)
    (hread : session.machine.memory.Covers (·.read) global.address.toUInt64 size) :
    ∃ cut signed : Int64,
      cut.toUInt64.toNat = value.toUInt64.toNat % 2 ^ (8 * size) ∧
      (∀ n, SignedOf size value.toUInt64 n ↔ n = signed.toInt) ∧
      ((eval r (.op (.cast type) [e])).runOn session).1 = .ok cut ∧
      ((storeThenEval r reg e (.ident reg)).runOn session).1 = .ok cut ∧
      ((storeThenEval r cell e (.ident cell)).runOn session).1 = .ok cut ∧
      ((storeThenEval r cell e
        (.op .ptr [.op (.cast (type ++ "*")) [.op .ref [.ident cell]]])).runOn session).1 =
          .ok signed := by
  have hplace : session.machine.varAddress global = .ok global.address.toUInt64 := by
    rw [Machine.varAddress, hstorage]
  have hle : size ≤ 8 := by
    have := (isWordWidth_iff size).mp hsize
    omega
  obtain ⟨hload, hderef⟩ := runOn_storeThenEval_memory hcell hplace (hglobal ▸ htype) hsize hwrite
    hread heval
  rw [hglobal] at hderef
  refine ⟨(lowBytes value.toUInt64 size).toInt64, signExtend (lowBytes value.toUInt64 size) size,
    ?_, signedOf_iff_signExtend_lowBytes hsize, ?_,
    runOn_storeThenEval_register hreg hregister (hvar ▸ htype) hsize heval, hload, hderef⟩
  · rw [UInt64.toUInt64_toInt64, toNat_lowBytes hle, Nat.one_shiftLeft]
  · rw [runOn_eval_cast htype hsize heval]

end

/-- A negative word of two bytes that lies on the border of two pages, high byte first. -/
theorem truncations_agree_word :
    let r : Draft :=
      { name := "f", address := 0, stmts := #[], body := ⟨0⟩
        idents := #[⟨0, "v", .register, "_WORD", 0⟩, ⟨0, "g", .global, "_WORD", 0x2fff⟩] }
    let s : Machine :=
      .new (({} : TypeTable).add "_WORD" 2) ((Memory.new .big 32).mapPages .readWrite [2, 3])
    let session : Session := ⟨[], s, {}⟩
    ((eval r (.op (.cast "_WORD") [.int 0x12348001])).runOn session).1 = .ok 0x8001 ∧
    ((storeThenEval r ⟨0⟩ (.int 0x12348001) (.ident ⟨0⟩)).runOn session).1 = .ok 0x8001 ∧
    ((storeThenEval r ⟨1⟩ (.int 0x12348001) (.ident ⟨1⟩)).runOn session).1 = .ok 0x8001 ∧
    ((storeThenEval r ⟨1⟩ (.int 0x12348001)
      (.op .ptr [.op (.cast "_WORD*") [.op .ref [.ident ⟨1⟩]]])).runOn session).1 =
        .ok (-0x7fff) := by
  intro r s session
  have htype : s.types.sizeOf? "_WORD" = some 2 :=
    TypeTable.sizeOf?_add_self {} 2 (by decide) (by decide)
  have hcovers : s.memory.Covers (·.read) 0x2fff 2 ∧ s.memory.Covers (·.write) 0x2fff 2 :=
    ⟨(s.memory.accessible_iff _ _ _).mp rfl, (s.memory.accessible_iff _ _ _).mp rfl⟩
  have heval : (eval r (.int 0x12348001)).runOn session = (.ok 0x12348001, session) := rfl
  have hreg : r.ident? ⟨0⟩ = some ⟨0, "v", .register, "_WORD", 0⟩ := rfl
  have hcell : r.ident? ⟨1⟩ = some ⟨0, "g", .global, "_WORD", 0x2fff⟩ := rfl
  obtain ⟨cut, signed, hcut, hsigned, hagree⟩ := truncations_agree r session "_WORD" htype rfl heval
    hreg rfl (.inl rfl) hcell rfl rfl hcovers.2 hcovers.1
  have hword : cut.toUInt64 = 0x8001 := UInt64.toNat_inj.mp hcut
  obtain rfl : cut = 0x8001 :=
    (Int64.toInt64_toUInt64 cut).symm.trans (congrArg UInt64.toInt64 hword)
  have hvalue : Int64.toInt (-0x7fff) = signed.toInt :=
    (hsigned _).mp ⟨by decide, by decide, by decide⟩
  obtain rfl : -0x7fff = signed := Int64.toInt_inj.mp hvalue
  exact hagree

end Evaluation

end RoutineEmulator
