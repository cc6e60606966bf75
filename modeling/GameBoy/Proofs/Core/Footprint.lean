import GameBoy.Proofs.Core.Traffic

/-!
# What an instruction leaves alone

An instruction writes few registers, and most instructions write no flags. Which registers one
writes is a table (`Instruction.written`), and a second one lists the flags that survive in an
instruction that writes `F` (`Instruction.spared`). How many bytes it writes was a table before
(`Instruction.stores`).

A destination may also be a source, as in `LD H,(HL)` or `ADD HL,HL`. So the tables are compared
with the moves of the processor on every core: two register files are the same but for a list of
registers (`Registers.SameBut`), the lists of two moves in a row are appended, and every move of
`Core.apply` has its own lemma.

Main theorem: `Core.footprint_step`.
-/

namespace GameBoy

/-! ## Registers by name -/

/-- A register other than the program counter. -/
inductive Register where
  | a
  | f
  | b
  | c
  | d
  | e
  | h
  | l
  | sp
  deriving DecidableEq, Repr

namespace Registers

/-- The number in a register. -/
def number (r : Registers) : Register → Nat
  | .a => r.a.toNat
  | .f => r.f.toNat
  | .b => r.b.toNat
  | .c => r.c.toNat
  | .d => r.d.toNat
  | .e => r.e.toNat
  | .h => r.h.toNat
  | .l => r.l.toNat
  | .sp => r.sp.toNat

/-- Two register files agree on every register outside a list. -/
def SameBut (written : List Register) (r r' : Registers) : Prop :=
  ∀ reg, reg ∉ written → r'.number reg = r.number reg

theorem SameBut.refl (written : List Register) (r : Registers) : SameBut written r r :=
  fun _ _ => rfl

theorem SameBut.trans {written written' : List Register} {r r' r'' : Registers}
    (h : SameBut written r r') (h' : SameBut written' r' r'') :
    SameBut (written ++ written') r r'' := by
  intro reg hreg
  rw [List.mem_append, not_or] at hreg
  rw [h' reg hreg.2, h reg hreg.1]

theorem SameBut.f_eq {written : List Register} {r r' : Registers} (h : SameBut written r r')
    (hf : .f ∉ written) : r'.f = r.f :=
  UInt8.toNat_inj.mp (h .f hf)

end Registers

/-! ## Tables -/

/-- The register that a place is, if it is one. -/
def Place.registers : Place → List Register
  | b => [.b]
  | c => [.c]
  | d => [.d]
  | e => [.e]
  | h => [.h]
  | l => [.l]
  | atHl => []
  | a => [.a]

def Pair.registers : Pair → List Register
  | bc => [.b, .c]
  | de => [.d, .e]
  | hl => [.h, .l]
  | sp => [.sp]

def StackPair.registers : StackPair → List Register
  | bc => [.b, .c]
  | de => [.d, .e]
  | hl => [.h, .l]
  | af => [.a, .f]

/-- The registers that are counted up or down when a pointer is followed. -/
def Pointer.registers : Pointer → List Register
  | hlUp | hlDown => [.h, .l]
  | _ => []

/-- A comparison writes the flags only. -/
def AluOp.written : AluOp → List Register
  | cp => [.f]
  | _ => [.a, .f]

def AccumulatorOp.written : AccumulatorOp → List Register
  | scf | ccf => [.f]
  | _ => [.a, .f]

/-- The flags that an operation on the accumulator keeps. -/
def AccumulatorOp.spared : AccumulatorOp → List Flag
  | daa => [.n]
  | cpl => [.z, .c]
  | scf | ccf => [.z]
  | _ => []

namespace Extended

/-- The registers that an instruction behind the prefix writes. -/
def written : Extended → List Register
  | shift _ place => [.f] ++ place.registers
  | test .. => [.f]
  | reset _ place | set _ place => place.registers

/-- The flags that an instruction behind the prefix keeps although it writes others. -/
def spared : Extended → List Flag
  | test .. => [.c]
  | _ => []

end Extended

namespace Instruction

/-- The registers that an instruction writes: its destination, with `HL` where a pointer is counted
on, the stack pointer where the stack is used, and `F`. It depends on whether the instruction
branches, and for the prefix on the instruction behind it. -/
def written (taken : Bool) (behind : Extended) : Instruction → List Register
  | loadPair pair | incPair pair | decPair pair => pair.registers
  | storeA pointer => pointer.registers
  | loadA pointer => pointer.registers ++ [.a]
  | loadHigh | loadHighC | loadAt => [.a]
  | addHl _ | loadHlSp => [.f, .h, .l]
  | addSp => [.f, .sp]
  | loadSpHl | reti | push _ | rst _ => [.sp]
  | pop pair => [.sp] ++ pair.registers
  | ret _ | call _ => if taken then [.sp] else []
  | inc place | dec place => [.f] ++ place.registers
  | loadByte place | load place _ => place.registers
  | accumulator op => op.written
  | alu op _ | aluByte op => op.written
  | prefixed => behind.written
  | _ => []

/-- The flags that an instruction keeps although it writes others. -/
def spared (behind : Extended) : Instruction → List Flag
  | inc _ | dec _ => [.c]
  | addHl _ => [.z]
  | accumulator op => op.spared
  | prefixed => behind.spared
  | _ => []

end Instruction

namespace Registers

/-! ## Operations on the register file -/

variable (r : Registers)

theorem sameBut_setPc (written : List Register) (pc : Word) :
    SameBut written r { r with pc := pc } := by
  intro reg _
  cases reg <;> rfl

theorem sameBut_setSp (sp : Word) : SameBut [.sp] r { r with sp := sp } := by
  intro reg h
  cases reg <;> first | rfl | exact absurd (by decide) h

theorem sameBut_setA (value : Byte) : SameBut [.a] r { r with a := value } := by
  intro reg h
  cases reg <;> first | rfl | exact absurd (by decide) h

theorem sameBut_setF (value : Byte) : SameBut [.f] r { r with f := value } := by
  intro reg h
  cases reg <;> first | rfl | exact absurd (by decide) h

theorem sameBut_setPair (pair : Pair) (value : Word) :
    SameBut pair.registers r (r.setPair pair value) := by
  intro reg h
  cases pair <;> cases reg <;> first | rfl | exact absurd (by decide) h

theorem sameBut_setStackPair (pair : StackPair) (value : Word) :
    SameBut pair.registers r (r.setStackPair pair value) := by
  intro reg h
  cases pair <;> cases reg <;> first | rfl | exact absurd (by decide) h

theorem sameBut_follow (pointer : Pointer) :
    SameBut pointer.registers r (r.follow pointer).2 := by
  cases pointer with
  | bc | de => exact .refl _ r
  | hlUp | hlDown => exact r.sameBut_setPair .hl _

theorem sameBut_addHl (value : Word) : SameBut [.f, .h, .l] r (Alu.addHl r value) :=
  (r.sameBut_setF _).trans (sameBut_setPair _ .hl _)

theorem sameBut_addOffset (base : Word) (offset : Byte) :
    SameBut [.f] r (Alu.addOffset r base offset).2 :=
  r.sameBut_setF _

theorem sameBut_alu (op : AluOp) (value : Byte) : SameBut op.written r (op.apply r value) := by
  cases op with
  | cp => exact r.sameBut_setF _
  | sub | sbc =>
    -- a difference writes the flags first
    intro reg h
    cases reg <;> first | rfl | exact absurd (by decide) h
  | _ => exact (r.sameBut_setA _).trans (sameBut_setF _ _)

theorem sameBut_accumulator (op : AccumulatorOp) : SameBut op.written r (op.apply r) := by
  cases op with
  | scf | ccf => exact r.sameBut_setF _
  | _ => exact (r.sameBut_setA _).trans (sameBut_setF _ _)

theorem sameBut_shift (op : ShiftOp) (value : Byte) : SameBut [.f] r (op.apply r value).2 :=
  r.sameBut_setF _

/-- Three flags written one after the other leave the fourth one alone. -/
theorem flag_setFlag_three (g g' g'' : Flag) {flag : Flag} (h : flag ∉ [g, g', g''])
    (value value' value'' : Bool) :
    (((r.setFlag g value).setFlag g' value').setFlag g'' value'').flag flag = r.flag flag := by
  simp only [List.mem_cons, List.not_mem_nil, or_false, not_or] at h
  rw [flag_setFlag, if_neg h.2.2, flag_setFlag, if_neg h.2.1, flag_setFlag, if_neg h.1]

theorem flag_inc (value : Byte) : (Alu.inc r value).2.flag .c = r.flag .c :=
  r.flag_setFlag_three .z .n .h (by decide) _ _ _

theorem flag_dec (value : Byte) : (Alu.dec r value).2.flag .c = r.flag .c :=
  r.flag_setFlag_three .z .n .h (by decide) _ _ _

theorem flag_testBit (bit : Fin 8) (value : Byte) :
    (Alu.testBit r bit value).flag .c = r.flag .c :=
  r.flag_setFlag_three .z .n .h (by decide) _ _ _

theorem flag_setHl (value : Word) (flag : Flag) : (r.setHl value).flag flag = r.flag flag := rfl

theorem flag_addHl (value : Word) : (Alu.addHl r value).flag .z = r.flag .z := by
  unfold Alu.addHl
  dsimp only
  rw [flag_setHl]
  exact r.flag_setFlag_three .n .h .c (by decide) _ _ _

theorem flag_accumulator {op : AccumulatorOp} {flag : Flag} (h : flag ∈ op.spared) :
    (op.apply r).flag flag = r.flag flag := by
  cases op with
  | daa =>
    obtain rfl : flag = .n := List.mem_singleton.mp h
    exact r.flag_setFlag_three .c .h .z (by decide) _ _ _
  | cpl =>
    have hne : flag ≠ .h ∧ flag ≠ .n := by
      revert flag
      decide
    show ((r.setFlag .n true).setFlag .h true).flag flag = _
    rw [flag_setFlag, if_neg hne.1, flag_setFlag, if_neg hne.2]
  | scf | ccf =>
    obtain rfl : flag = .z := List.mem_singleton.mp h
    exact r.flag_setFlag_three .n .h .c (by decide) _ _ _
  | _ => cases h

end Registers

namespace Core

variable {β : Type} [Bus β] {s : Core β}

open Registers (SameBut)

/-! ## Moves of the processor -/

theorem sameBut_writePlace (place : Place) (value : Byte) (s : Core β) :
    SameBut place.registers s.cpu.registers (s.writePlace place value).cpu.registers := by
  intro reg h
  cases place <;> cases reg <;> first | rfl | exact absurd (by decide) h

theorem sameBut_combine (op : Registers → Byte → Registers) {written : List Register}
    (h : ∀ r value, SameBut written r (op r value)) (place : Place) (s : Core β) :
    SameBut written s.cpu.registers (s.combine op place).cpu.registers := by
  rw [registers_combine]
  exact h _ _

theorem sameBut_update (op : Registers → Byte → Byte × Registers) {written : List Register}
    (h : ∀ r value, SameBut written r (op r value).2) (place : Place) (s : Core β) :
    SameBut (written ++ place.registers) s.cpu.registers (s.update op place).cpu.registers := by
  obtain ⟨t, value, hupdate, ht⟩ := update_eq op place s
  rw [hupdate]
  refine SameBut.trans ?_ (sameBut_writePlace place value t)
  rw [ht]
  exact h _ _

theorem sameBut_popPc (s : Core β) :
    SameBut [.sp] s.cpu.registers s.popPc.cpu.registers :=
  (s.cpu.registers.sameBut_setSp _).trans (Registers.sameBut_setPc _ [] _)

theorem sameBut_callTo (target : Word) (s : Core β) :
    SameBut [.sp] s.cpu.registers (s.callTo target).cpu.registers :=
  (s.cpu.registers.sameBut_setSp _).trans (Registers.sameBut_setPc _ [] _)

/-! ## Registers -/

theorem sameBut_apply (i : Instruction) (operand : Operand) (behind : Extended) (s : Core β) :
    SameBut (i.written (i.taken s.cpu.registers) behind) s.cpu.registers
      (s.apply i operand).cpu.registers := by
  cases i with
  | halt => unfold apply halt; dsimp only; split <;> exact .refl _ _
  | ei => unfold apply; dsimp only; split <;> exact .refl _ _
  | loadPair pair | incPair pair | decPair pair => exact Registers.sameBut_setPair _ pair _
  | storeA pointer => exact Registers.sameBut_follow _ pointer
  | loadA pointer =>
    exact (Registers.sameBut_follow _ pointer).trans (Registers.sameBut_setA _ _)
  | loadHigh | loadHighC | loadAt => exact Registers.sameBut_setA _ _
  | addHl pair => exact Registers.sameBut_addHl _ _
  | inc place => exact sameBut_update Alu.inc (fun r _ => r.sameBut_setF _) place s
  | dec place => exact sameBut_update Alu.dec (fun r _ => r.sameBut_setF _) place s
  | loadByte target => exact sameBut_writePlace target _ s
  | load target source =>
    have key := sameBut_writePlace target (s.readPlace source).1 (s.readPlace source).2
    rw [registers_readPlace] at key
    exact key
  | accumulator op => exact Registers.sameBut_accumulator _ op
  | alu op source => exact sameBut_combine op.apply (fun r value => r.sameBut_alu op value) source s
  | aluByte op => exact Registers.sameBut_alu _ op _
  | jr condition | jp condition =>
    unfold apply
    dsimp only
    split
    · exact Registers.sameBut_setPc _ _ _
    · exact .refl _ _
  | jpHl => exact Registers.sameBut_setPc _ _ _
  | ret condition =>
    show SameBut (if Condition.met s.cpu.registers condition then [.sp] else []) _
      (if Condition.met s.cpu.registers condition then s.popPc else s).cpu.registers
    split
    · exact sameBut_popPc s
    · exact .refl _ _
  | call condition =>
    show SameBut (if Condition.met s.cpu.registers condition then [.sp] else []) _
      (if Condition.met s.cpu.registers condition then s.callTo _ else s).cpu.registers
    split
    · exact sameBut_callTo _ s
    · exact .refl _ _
  | reti => exact sameBut_popPc s
  | rst vector => exact sameBut_callTo _ s
  | push pair => exact Registers.sameBut_setSp _ _
  | pop pair =>
    exact (Registers.sameBut_setSp _ _).trans (Registers.sameBut_setStackPair _ pair _)
  | addSp => exact (Registers.sameBut_addOffset _ _ _).trans (Registers.sameBut_setSp _ _)
  | loadHlSp => exact (Registers.sameBut_addOffset _ _ _).trans (Registers.sameBut_setPair _ .hl _)
  | loadSpHl => exact Registers.sameBut_setSp _ _
  | _ => exact .refl _ _

theorem sameBut_applyExtended (i : Extended) (s : Core β) :
    SameBut i.written s.cpu.registers (s.applyExtended i).cpu.registers := by
  cases i with
  | shift op place =>
    exact sameBut_update op.apply (fun r value => r.sameBut_shift op value) place s
  | test bit place =>
    exact sameBut_combine (Alu.testBit · bit ·) (fun r _ => r.sameBut_setF _) place s
  | reset bit place =>
    exact sameBut_update (fun r value => (Byte.setBit value bit false, r)) (fun r _ => .refl [] r)
      place s
  | set bit place =>
    exact sameBut_update (fun r value => (Byte.setBit value bit true, r)) (fun r _ => .refl [] r)
      place s

theorem sameBut_effect (i : Instruction) (bytes : List Byte) (s : Core β) :
    SameBut (i.written (i.taken s.cpu.registers) (.ofBytes bytes)) s.cpu.registers
      (s.effect i bytes).cpu.registers := by
  by_cases h : i = .prefixed
  · subst h
    exact sameBut_applyExtended _ s
  · rw [effect_of_ne h]
    exact sameBut_apply i _ _ s

/-! ## Flags -/

theorem flag_writePlace (place : Place) (value : Byte) (s : Core β) (flag : Flag) :
    (s.writePlace place value).cpu.registers.flag flag = s.cpu.registers.flag flag := by
  cases place <;> rfl

theorem flag_update {op : Registers → Byte → Byte × Registers} {flag : Flag}
    (h : ∀ r value, (op r value).2.flag flag = r.flag flag) (place : Place) (s : Core β) :
    (s.update op place).cpu.registers.flag flag = s.cpu.registers.flag flag := by
  obtain ⟨t, value, hupdate, ht⟩ := update_eq op place s
  rw [hupdate, flag_writePlace, ht]
  exact h _ _

theorem flag_apply {i : Instruction} (hne : i ≠ .prefixed) (operand : Operand)
    {behind : Extended} {flag : Flag} (h : flag ∈ i.spared behind) (s : Core β) :
    (s.apply i operand).cpu.registers.flag flag = s.cpu.registers.flag flag := by
  cases i with
  | prefixed => exact absurd rfl hne
  | inc place =>
    obtain rfl : flag = .c := List.mem_singleton.mp h
    exact flag_update Registers.flag_inc place s
  | dec place =>
    obtain rfl : flag = .c := List.mem_singleton.mp h
    exact flag_update Registers.flag_dec place s
  | addHl pair =>
    obtain rfl : flag = .z := List.mem_singleton.mp h
    exact Registers.flag_addHl _ _
  | accumulator op => exact Registers.flag_accumulator _ h
  | _ => cases h

theorem flag_applyExtended {i : Extended} {flag : Flag} (h : flag ∈ i.spared) (s : Core β) :
    (s.applyExtended i).cpu.registers.flag flag = s.cpu.registers.flag flag := by
  cases i with
  | test bit place =>
    obtain rfl : flag = .c := List.mem_singleton.mp h
    show (s.combine _ place).cpu.registers.flag .c = _
    rw [registers_combine, Registers.flag_testBit]
  | _ => cases h

theorem flag_effect {i : Instruction} {bytes : List Byte} {flag : Flag}
    (h : flag ∈ i.spared (.ofBytes bytes)) (s : Core β) :
    (s.effect i bytes).cpu.registers.flag flag = s.cpu.registers.flag flag := by
  by_cases hi : i = .prefixed
  · subst hi
    exact flag_applyExtended h s
  · rw [effect_of_ne hi]
    exact flag_apply hi _ h s

end Core

/-! ## Writes to the bus -/

/-- Whether an access is a write. -/
def Access.isWrite : Access → Bool
  | write .. => true
  | read .. => false

/-- The number of writes that a recorder has seen, as a meter. -/
def Traced.writeCounter (β : Type) [Bus β] : Bus.Meter (Traced β) where
  reading traced := traced.accesses.countP Access.isWrite
  perRead := 0
  perWrite := 1
  read _ _ := Array.countP_push
  write _ _ _ := Array.countP_push

theorem Traced.charge_writeCounter {β : Type} [Bus β] (loads stores : Nat) :
    (writeCounter β).charge loads stores = stores := by
  simp only [Bus.Meter.charge, writeCounter, Nat.mul_zero, Nat.mul_one, Nat.zero_add]

theorem Traced.readList_fst {β : Type} [Bus β] (addr : Word) (n : Nat) (traced : Traced β) :
    (Bus.readList addr n traced).1 = (Bus.readList addr n traced.bus).1 := by
  induction n generalizing addr traced with
  | zero => rfl
  | succ n ih =>
    show (Bus.read8 addr traced.bus).1 ::
      (Bus.readList (addr + 1) n (Bus.read8 addr traced).2).1 = _
    rw [ih]
    rfl

namespace Core

variable {β : Type} [Bus β] {s : Core β}

theorem behind_traced (s : Core β) : s.traced.behind.1 = s.behind.1 := by
  unfold behind
  rw [Traced.readList_fst, current_traced]
  rfl

theorem writes_runInstruction (s : Core β) :
    s.traced.runInstruction.state.bus.accesses.countP Access.isWrite =
      s.current.stores (s.current.taken s.cpu.registers) (.ofBytes s.behind.1) := by
  have hmeter := (Traced.writeCounter β).reading_runInstruction s.traced
  rw [Traced.charge_writeCounter, current_traced, behind_traced] at hmeter
  exact hmeter.trans (Nat.zero_add _)

/-! ## The law -/

/-- **The footprint of a step.** An instruction leaves every register alone but those it is listed
to write, keeps the flags that it is listed to spare, and writes as many bytes as it is listed to
store. -/
theorem footprint_step {i : Instruction} (hhalted : s.cpu.halted = false)
    (hstopped : s.cpu.stopped = false)
    (hi : Instruction.decode (Bus.read8 s.cpu.registers.pc s.bus).1 = i) :
    let r := s.cpu.registers
    let behind := Extended.ofBytes s.behind.1
    let after := s.step.state.cpu.registers
    (∀ reg, reg ∉ i.written (i.branches r.f) behind → after.number reg = r.number reg) ∧
      (∀ flag, flag ∈ i.spared behind → after.flag flag = r.flag flag) ∧
      s.stepAccesses.countP Access.isWrite = i.stores (i.branches r.f) behind := by
  have hcurrent : s.current = i := (current_eq s).trans hi
  subst hcurrent
  intro r behind after
  have hrun : s.step = s.runInstruction := step_of_running hhalted hstopped
  have hrun' : s.traced.step = s.traced.runInstruction := step_of_running hhalted hstopped
  have hafter : after = (s.ready.effect s.current s.behind.1).cpu.registers := by
    rw [← (of_runInstruction s).1, ← hrun]
  -- fetching the instruction changes the program counter only
  have hready : Registers.SameBut [] r s.ready.cpu.registers := r.sameBut_setPc [] s.next
  have htaken : s.current.taken s.ready.cpu.registers = s.current.branches r.f :=
    (Instruction.taken_past s.current s.next s.behind.2 s).trans (s.current.taken_eq r)
  refine ⟨?_, fun flag hflag => ?_, ?_⟩
  · have heffect := sameBut_effect s.current s.behind.1 s.ready
    rw [← hafter, htaken] at heffect
    exact hready.trans heffect
  · rw [hafter]
    exact flag_effect hflag s.ready
  · rw [stepAccesses, hrun', ← Instruction.taken_eq]
    exact writes_runInstruction s

/-- `INC (HL)` with its own opcode as the destination, under a carry: no register changes but `F`,
the carry stays, and one byte is written. -/
theorem footprint_step_of_itself :
    ∃ space : AddressSpace,
      let s : Core AddressSpace :=
        ⟨{ registers := { f := 0x10, h := 0xC0, l := 0x00, pc := 0xC000 } }, space⟩
      let after := s.step.state.cpu.registers
      Instruction.decode (Bus.read8 s.cpu.registers.pc s.bus).1 = .inc .atHl ∧
        (∀ reg, reg ≠ .f → after.number reg = s.cpu.registers.number reg) ∧
        after.flag .c = true ∧ s.stepAccesses.countP Access.isWrite = 1 := by
  refine ⟨AddressSpace.zero.set 0xC000 0x34, ?_⟩
  intro s after
  have hopcode : (Bus.read8 s.cpu.registers.pc s.bus).1 = 0x34 := AddressSpace.get_set_self _ _ _
  have hi : Instruction.decode (Bus.read8 s.cpu.registers.pc s.bus).1 = .inc .atHl := by
    rw [hopcode]
    rfl
  obtain ⟨hregisters, hflags, hwrites⟩ := footprint_step (s := s) rfl rfl hi
  refine ⟨hi, fun reg hreg => hregisters reg ?_, (hflags .c (by decide)).trans ?_, hwrites⟩
  · exact fun hmem => hreg (List.mem_singleton.mp hmem)
  · decide

end Core

end GameBoy
