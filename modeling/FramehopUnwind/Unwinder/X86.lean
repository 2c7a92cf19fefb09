/-
  FramehopUnwind.Unwinder.X86 — unwinding on x86-64
  (vendor/framehop/src/x86_64: unwindregs.rs, unwind_rule.rs, register_ordering.rs, dwarf.rs).

  A rule executes against the registers and the stack; a DWARF row translates into a rule
  or, if it cannot or belongs to a signal trampoline, is evaluated as it is. Sums the
  source leaves unchecked wrap, as in a release build.

  `JustReturn` and `OffsetSpAndPopRegisters` come from the Mach-O and PE paths only, but a
  cache can hold any rule, so they execute here too.

  Proved:
  - `exec_outcome`: a rule that yields a caller never moves the stack pointer down, and one
    that does not leaves it.
  - `archX86`: a row's rule does not depend on the registers, the stack or the frame.
  - `signal_frame_exact_iff`: when crossing a signal frame restores what its row's rules give
    for all three registers, or fails.
-/

import FramehopUnwind.Unwinder.Dwarf

namespace FramehopUnwind.Unwinder.X86

open Lib.Word

/-! ## Registers -/

inductive Reg where
  | rax | rdx | rcx | rbx | rsi | rdi | rbp | rsp | r8 | r9 | r10 | r11 | r12 | r13 | r14 | r15
  deriving DecidableEq, Repr

structure UnwindRegs where
  ip : Nat
  regs : Reg → Nat

def UnwindRegs.get (r : UnwindRegs) (reg : Reg) : Nat := r.regs reg

def UnwindRegs.set (r : UnwindRegs) (reg : Reg) (value : Nat) : UnwindRegs :=
  { r with regs := Function.update r.regs reg value }

def UnwindRegs.setIp (r : UnwindRegs) (ip : Nat) : UnwindRegs := { r with ip := ip }

def UnwindRegs.sp (r : UnwindRegs) : Nat := r.get .rsp

def UnwindRegs.bp (r : UnwindRegs) : Nat := r.get .rbp

def UnwindRegs.new (ip sp bp : Nat) : UnwindRegs := ((⟨ip, fun _ => 0⟩ : UnwindRegs).set .rsp sp).set .rbp bp

/-- `DwarfUnwindRegs::get`, by DWARF register number: RBP, RSP and the return address column. -/
def UnwindRegs.dwarfGet (r : UnwindRegs) : Nat → Option Nat
  | 16 => some r.ip
  | 7 => some r.sp
  | 6 => some r.bp
  | _ => none

@[simp] theorem setIp_ip (r : UnwindRegs) (ip : Nat) : (r.setIp ip).ip = ip := rfl

@[simp] theorem set_ip (r : UnwindRegs) (reg : Reg) (v : Nat) : (r.set reg v).ip = r.ip := rfl

@[simp] theorem setIp_sp (r : UnwindRegs) (ip : Nat) : (r.setIp ip).sp = r.sp := rfl

@[simp] theorem set_sp (r : UnwindRegs) (v : Nat) : (r.set .rsp v).sp = v := by
  simp [UnwindRegs.sp, UnwindRegs.get, UnwindRegs.set]

@[simp] theorem set_rbp_sp (r : UnwindRegs) (v : Nat) : (r.set .rbp v).sp = r.sp := by
  simp [UnwindRegs.sp, UnwindRegs.get, UnwindRegs.set]

@[simp] theorem set_bp (r : UnwindRegs) (v : Nat) : (r.set .rbp v).bp = v := by
  simp [UnwindRegs.bp, UnwindRegs.get, UnwindRegs.set]

@[simp] theorem set_rsp_bp (r : UnwindRegs) (v : Nat) : (r.set .rsp v).bp = r.bp := by
  simp [UnwindRegs.bp, UnwindRegs.get, UnwindRegs.set]

theorem set_set (r : UnwindRegs) (reg : Reg) (v w : Nat) : (r.set reg v).set reg w = r.set reg w := by
  simp [UnwindRegs.set]

theorem set_comm (r : UnwindRegs) {a b : Reg} (h : a ≠ b) (v w : Nat) :
    (r.set a v).set b w = (r.set b w).set a v := by
  simp [UnwindRegs.set, Function.update_comm h]

theorem set_get (r : UnwindRegs) (reg : Reg) : r.set reg (r.get reg) = r := by
  simp [UnwindRegs.set, UnwindRegs.get]

/-! ## Rules -/

inductive UnwindRule where
  | endOfStack
  | justReturn
  | justReturnIfFirstFrameOtherwiseFp
  | offsetSp (spOffsetBy8 : Nat)
  | offsetSpAndRestoreBp (spOffsetBy8 : Nat) (bpStorageOffsetFromSpBy8 : Int)
  | useFramePointer
  | offsetSpAndPopRegisters (spOffsetBy8 registerCount encodedRegistersToPop : Nat)
  deriving DecidableEq, Repr

def encodeRegisters : List Reg := [.rbx, .rbp, .rdi, .rsi, .r12, .r13, .r14, .r15]

/-- The entries `i` and `j` swapped. -/
def swapAt (l : List Reg) (i j : Nat) : List Reg :=
  match l[i]?, l[j]? with
  | some a, some b => (l.set i b).set j a
  | _, _ => l

/-- The loop of `decode`, `n` registers from the end still to place. An ordering below 8!,
    as `encode` gives, is used up before `n` is 0. -/
def decodeLoop : Nat → Nat → List Reg → List Reg
  | 0, _, regs => regs
  | n + 1, r, regs =>
    if r = 0 then regs
    else
      let index := r % (n + 1)
      let regs := if index ≠ 0 then swapAt regs (8 - (n + 1) + index) (8 - (n + 1)) else regs
      decodeLoop n (r / (n + 1)) regs

def decode (count encodedOrdering : Nat) : List Reg := (decodeLoop 8 encodedOrdering encodeRegisters).take count

/-- Each register read from the stack in turn; a failed read leaves those before it set. -/
def popRegisters (read : ReadStack) : List Reg → Nat → UnwindRegs → Except Error Nat × UnwindRegs
  | [], sp, regs => (.ok sp, regs)
  | reg :: rest, sp, regs =>
    match read sp with
    | none => (.error (.couldNotReadStack sp), regs)
    | some value =>
      match checkedAdd sp 8 with
      | none => (.error .integerOverflow, regs)
      | some sp => popRegisters read rest sp (regs.set reg value)

/-- The caller's frame by frame pointer: `(bp + 16, *bp)`. -/
def framePointerTarget (regs : UnwindRegs) (read : ReadStack) : Except Error (Option (Nat × Nat)) := do
  let newSp ← okOr .integerOverflow (checkedAdd regs.bp 16)
  if newSp ≤ regs.sp then throw .framepointerUnwindingMovedBackwards
  let newBp ← readOr read regs.bp
  return some (newSp, newBp)

/-- The new `(sp, bp)` of a rule that pops nothing; `none` ends the stack. -/
def target (rule : UnwindRule) (isFirstFrame : Bool) (regs : UnwindRegs) (read : ReadStack) :
    Except Error (Option (Nat × Nat)) :=
  let sp := regs.sp
  match rule with
  | .endOfStack => return none
  | .justReturn => do
    let newSp ← okOr .integerOverflow (checkedAdd sp 8)
    return some (newSp, regs.bp)
  | .justReturnIfFirstFrameOtherwiseFp =>
    if isFirstFrame then do
      let newSp ← okOr .integerOverflow (checkedAdd sp 8)
      return some (newSp, regs.bp)
    else framePointerTarget regs read
  | .offsetSp spOffsetBy8 => do
    let newSp ← okOr .integerOverflow (checkedAdd sp (spOffsetBy8 * 8))
    return some (newSp, regs.bp)
  | .offsetSpAndRestoreBp spOffsetBy8 bpStorageOffsetFromSpBy8 => do
    let newSp ← okOr .integerOverflow (checkedAdd sp (spOffsetBy8 * 8))
    let bpLocation ← okOr .integerOverflow (checkedAddSigned sp (bpStorageOffsetFromSpBy8 * 8))
    match read bpLocation with
    | some newBp => return some (newSp, newBp)
    | none =>
      -- an epilogue's rule may name a slot that is already popped
      if isFirstFrame ∧ bpLocation < sp then return some (newSp, regs.bp)
      else throw (.couldNotReadStack bpLocation)
  | .useFramePointer => if regs.bp = 0 then return none else framePointerTarget regs read
  | .offsetSpAndPopRegisters _ _ _ => return none

/-- The end of `exec`: the return address is at `newSp - 8`. -/
def finish (sp newSp newBp : Nat) (regs : UnwindRegs) (read : ReadStack) : Except Error (Option Nat) × UnwindRegs :=
  let location := wrappingSub newSp 8
  match read location with
  | none => (.error (.couldNotReadStack location), regs)
  | some returnAddress =>
    if returnAddress = 0 then (.ok none, regs)
    else if newSp = sp ∧ returnAddress = regs.ip then (.error .didNotAdvance, regs)
    else (.ok (some returnAddress), ((regs.setIp returnAddress).set .rsp newSp).set .rbp newBp)

def exec (rule : UnwindRule) (isFirstFrame : Bool) (regs : UnwindRegs) (read : ReadStack) :
    Except Error (Option Nat) × UnwindRegs :=
  match rule with
  | .offsetSpAndPopRegisters spOffsetBy8 registerCount encodedRegistersToPop =>
    match checkedAdd regs.sp (spOffsetBy8 * 8) with
    | none => (.error .integerOverflow, regs)
    | some sp =>
      match popRegisters read (decode registerCount encodedRegistersToPop) sp regs with
      | (.error e, regs) => (.error e, regs)
      | (.ok sp', regs') =>
        match checkedAdd sp' 8 with
        | none => (.error .integerOverflow, regs')
        | some newSp => finish regs.sp newSp regs'.bp regs' read
  | rule =>
    match target rule isFirstFrame regs read with
    | .error e => (.error e, regs)
    | .ok none => (.ok none, regs)
    | .ok (some (newSp, newBp)) => finish regs.sp newSp newBp regs read

/-! ## What executing a rule does -/

theorem set_sp_ne (r : UnwindRegs) {reg : Reg} (h : reg ≠ .rsp) (v : Nat) : (r.set reg v).sp = r.sp := by
  simp [UnwindRegs.sp, UnwindRegs.get, UnwindRegs.set, Function.update_of_ne (Ne.symm h)]

theorem mem_swapAt {l : List Reg} {i j : Nat} {reg : Reg} (h : reg ∈ swapAt l i j) : reg ∈ l := by
  unfold swapAt at h
  split at h
  · rename_i a b ha hb
    rcases List.mem_or_eq_of_mem_set h with h | rfl
    · rcases List.mem_or_eq_of_mem_set h with h | rfl
      · exact h
      · exact List.mem_of_getElem? hb
    · exact List.mem_of_getElem? ha
  · exact h

theorem mem_decodeLoop {n r : Nat} {l : List Reg} {reg : Reg} (h : reg ∈ decodeLoop n r l) : reg ∈ l := by
  induction n generalizing r l with
  | zero => exact h
  | succ n ih =>
    unfold decodeLoop at h
    split at h
    · exact h
    · have h := ih h
      split at h
      · exact mem_swapAt h
      · exact h

/-- No rule pops the stack pointer. -/
theorem rsp_not_decoded (count ordering : Nat) : Reg.rsp ∉ decode count ordering := by
  intro h
  have := mem_decodeLoop (List.mem_of_mem_take h)
  simp [encodeRegisters] at this

theorem popRegisters_spec (read : ReadStack) {rest : List Reg} (hrest : Reg.rsp ∉ rest) (sp : Nat) (regs : UnwindRegs) :
    (popRegisters read rest sp regs).2.sp = regs.sp ∧ (popRegisters read rest sp regs).2.ip = regs.ip ∧
      ∀ sp', (popRegisters read rest sp regs).1 = .ok sp' → sp ≤ sp' := by
  induction rest generalizing sp regs with
  | nil =>
    refine ⟨rfl, rfl, ?_⟩
    intro sp' h
    cases h
    exact le_rfl
  | cons reg rest ih =>
    obtain ⟨hreg, hrest⟩ := List.ne_and_not_mem_of_not_mem_cons hrest
    unfold popRegisters
    cases read sp with
    | none => exact ⟨rfl, rfl, nofun⟩
    | some value =>
      cases hsp : checkedAdd sp 8 with
      | none => exact ⟨rfl, rfl, nofun⟩
      | some sp₁ =>
        obtain ⟨h1, h2, h3⟩ := ih hrest sp₁ (regs.set reg value)
        refine ⟨h1.trans (set_sp_ne _ (Ne.symm hreg) _), h2, ?_⟩
        intro sp' h
        exact (le_of_checkedAdd hsp).trans (h3 sp' h)

theorem target_offsetSp {n newSp : Nat} (first : Bool) {regs : UnwindRegs} {read : ReadStack}
    (h : checkedAdd regs.sp (n * 8) = some newSp) :
    target (.offsetSp n) first regs read = .ok (some (newSp, regs.bp)) := by
  simp only [target, h]
  rfl

theorem target_restoreBp {n newSp loc newBp : Nat} {k : Int} (first : Bool) {regs : UnwindRegs} {read : ReadStack}
    (hsp : checkedAdd regs.sp (n * 8) = some newSp) (hloc : checkedAddSigned regs.sp (k * 8) = some loc)
    (hbp : read loc = some newBp) :
    target (.offsetSpAndRestoreBp n k) first regs read = .ok (some (newSp, newBp)) := by
  simp only [target, hsp, hloc, okOr, bind, Except.bind, hbp]
  rfl

theorem framePointerTarget_up {regs : UnwindRegs} {read : ReadStack} {newSp newBp : Nat}
    (h : framePointerTarget regs read = .ok (some (newSp, newBp))) : regs.sp < newSp := by
  unfold framePointerTarget at h
  simp only [bind, Except.bind, pure, Except.pure, throw, throwThe, MonadExceptOf.throw] at h
  split at h
  · cases h
  · split at h
    · cases h
    · split at h
      · cases h
      · cases h
        omega

/-- No rule moves the stack pointer down. -/
theorem target_up {rule : UnwindRule} {first : Bool} {regs : UnwindRegs} {read : ReadStack} {newSp newBp : Nat}
    (h : target rule first regs read = .ok (some (newSp, newBp))) : regs.sp ≤ newSp := by
  have add_up : ∀ b newBp', (do let newSp ← okOr .integerOverflow (checkedAdd regs.sp b); return some (newSp, newBp')) =
      (.ok (some (newSp, newBp)) : Except Error (Option (Nat × Nat))) → regs.sp ≤ newSp := by
    intro b newBp' h
    cases hs : checkedAdd regs.sp b with
    | none =>
      rw [hs] at h
      cases h
    | some s =>
      rw [hs] at h
      cases h
      exact le_of_checkedAdd hs
  cases rule with
  | endOfStack => cases h
  | justReturn => exact add_up _ _ h
  | justReturnIfFirstFrameOtherwiseFp =>
    cases first with
    | true => exact add_up _ _ h
    | false => exact (framePointerTarget_up h).le
  | offsetSp n => exact add_up _ _ h
  | offsetSpAndRestoreBp n m =>
    cases hs : checkedAdd regs.sp (n * 8) with
    | none =>
      simp only [target, hs] at h
      cases h
    | some s =>
      have hle := le_of_checkedAdd hs
      simp only [target, hs, okOr, bind, Except.bind, pure, Except.pure, throw, throwThe, MonadExceptOf.throw] at h
      repeat' split at h
      all_goals cases h
      all_goals exact hle
  | useFramePointer =>
    simp only [target] at h
    split at h
    · cases h
    · exact (framePointerTarget_up h).le
  | offsetSpAndPopRegisters n c e => cases h

/-- What a rule can do: it yields a caller at a non-zero address, the word below its stack
    pointer, and the stack pointer did not move down; or the stack pointer stays. -/
structure Outcome (regs : UnwindRegs) (read : ReadStack) (r : Except Error (Option Nat) × UnwindRegs) : Prop where
  moves : ∀ a, r.1 = .ok (some a) → a ≠ 0 ∧ r.2.ip = a ∧ regs.sp ≤ r.2.sp ∧ read (wrappingSub r.2.sp 8) = some a ∧
    ¬ (r.2.sp = regs.sp ∧ a = regs.ip)
  stays : (∀ a, r.1 ≠ .ok (some a)) → r.2.sp = regs.sp

theorem finish_outcome {regs regs₁ : UnwindRegs} {newSp newBp : Nat} (read : ReadStack) (hup : regs.sp ≤ newSp)
    (hsp : regs₁.sp = regs.sp) (hip : regs₁.ip = regs.ip) :
    Outcome regs read (finish regs.sp newSp newBp regs₁ read) := by
  unfold finish
  dsimp only
  split
  · exact ⟨nofun, fun _ => hsp⟩
  · rename_i a hr
    split
    · exact ⟨nofun, fun _ => hsp⟩
    · rename_i h0
      split
      · exact ⟨nofun, fun _ => hsp⟩
      · rename_i hmoved
        refine ⟨?_, fun h => absurd rfl (h a)⟩
        intro a' ha'
        cases ha'
        simp only [set_rbp_sp, set_sp, set_ip, setIp_ip]
        exact ⟨h0, trivial, hup, hr, hip ▸ hmoved⟩

theorem finish_some_iff {sp newSp newBp ra : Nat} {regs regs' : UnwindRegs} {read : ReadStack} :
    finish sp newSp newBp regs read = (.ok (some ra), regs') ↔
      read (wrappingSub newSp 8) = some ra ∧ ra ≠ 0 ∧ ¬ (newSp = sp ∧ ra = regs.ip) ∧
        regs' = ((regs.setIp ra).set .rsp newSp).set .rbp newBp := by
  unfold finish
  dsimp only
  cases read (wrappingSub newSp 8) with
  | none => simp
  | some ra' =>
    dsimp only
    constructor
    · intro h
      split_ifs at h with h0 hmoved
      · cases h
      · cases h
      · cases h
        exact ⟨rfl, h0, hmoved, rfl⟩
    · rintro ⟨hra, h0, hmoved, rfl⟩
      cases hra
      rw [if_neg h0, if_neg hmoved]

theorem exec_of_target {rule : UnwindRule} {first : Bool} {regs : UnwindRegs} {read : ReadStack} {newSp newBp : Nat}
    (h : target rule first regs read = .ok (some (newSp, newBp))) :
    exec rule first regs read = finish regs.sp newSp newBp regs read := by
  unfold exec
  split
  · cases h
  · rw [h]

theorem exec_outcome (rule : UnwindRule) (first : Bool) (regs : UnwindRegs) (read : ReadStack) :
    Outcome regs read (exec rule first regs read) := by
  unfold exec
  split
  · rename_i n count ordering
    cases hs : checkedAdd regs.sp (n * 8) with
    | none => exact ⟨nofun, fun _ => rfl⟩
    | some sp =>
      obtain ⟨hsp, hip, hup⟩ := popRegisters_spec read (rsp_not_decoded count ordering) sp regs
      simp only
      generalize popRegisters read (decode count ordering) sp regs = popped at hsp hip hup
      obtain ⟨result, regs'⟩ := popped
      cases result with
      | error e => exact ⟨nofun, fun _ => hsp⟩
      | ok sp' =>
        simp only
        cases hs' : checkedAdd sp' 8 with
        | none => exact ⟨nofun, fun _ => hsp⟩
        | some newSp =>
          exact finish_outcome read (((le_of_checkedAdd hs).trans (hup sp' rfl)).trans (le_of_checkedAdd hs')) hsp hip
  · split
    · exact ⟨nofun, fun _ => rfl⟩
    · exact ⟨nofun, fun _ => rfl⟩
    · rename_i ht
      exact finish_outcome read (target_up ht) rfl rfl

/-! ## DWARF rows -/

/-- `.error ()` is `RegisterNotStoredRelativeToCfa`. -/
def registerRuleToCfaOffset : Option RegisterRule → Except Unit (Option Int)
  | none | some .undefined | some .sameValue => .ok none
  | some (.offset offset) => .ok (some offset)
  | _ => .error ()

/-- `none` is a `ConversionError`: the row takes the generic path. -/
def translateIntoUnwindRule (cfaRule : CfaRule) (bpRule raRule : Option RegisterRule) : Option UnwindRule :=
  let translateCfa : Option UnwindRule :=
    match cfaRule with
    | .registerAndOffset 7 offset =>
      match toU16 (offset.tdiv 8) with
      | none => none
      | some spOffsetBy8 =>
        match registerRuleToCfaOffset bpRule with
        | .error () => none
        | .ok none => some (.offsetSp spOffsetBy8)
        | .ok (some bpCfaOffset) =>
          (toI16 ((wrappingAddSigned offset bpCfaOffset).tdiv 8)).map (.offsetSpAndRestoreBp spOffsetBy8 ·)
    | .registerAndOffset 6 offset =>
      match registerRuleToCfaOffset bpRule with
      | .ok (some bpCfaOffset) => if offset = 16 ∧ bpCfaOffset = -16 then some .useFramePointer else none
      | _ => none
    | _ => none
  match raRule with
  | none | some .undefined => some .endOfStack
  | some (.offset offset) => if offset = -8 then translateCfa else none
  | _ => none

/-- The generic path of `unwind_frame`. -/
def unwindFrameGeneric (row : UnwindTableRow) (regs : UnwindRegs) (isFirstFrame isSignalFrame : Bool)
    (read : ReadStack) :
    Except DwarfUnwinderError (UnwindResult UnwindRule × UnwindRegs) :=
  match evalCfaRule regs.dwarfGet read row.cfa with
  | none => .error .couldNotRecoverCfa
  | some cfa =>
    let newBp := (evalRegisterRule regs.dwarfGet read cfa regs.bp (row.register 6)).getD regs.bp
    let returnAddress :=
      match evalRegisterRule regs.dwarfGet read cfa regs.ip (row.register 16) with
      | some ra => some ra
      | none => read (wrappingSub cfa 8)
    match returnAddress with
    | none => .error .couldNotRecoverReturnAddress
    | some returnAddress =>
      if cfa = regs.sp ∧ returnAddress = regs.ip then .error .didNotAdvance
      -- the code a signal interrupted may run on another stack
      else if isFirstFrame = false ∧ isSignalFrame = false ∧ cfa < regs.sp then .error .stackPointerMovedBackwards
      else
        let regs := ((regs.setIp returnAddress).set .rbp newBp).set .rsp cfa
        .ok (if isSignalFrame then .interrupted returnAddress else .uncacheable returnAddress, regs)

/-- The rule of a row; a signal frame never has one. -/
def rowRule (row : UnwindTableRow) (isSignalFrame : Bool) : Option UnwindRule :=
  if isSignalFrame then none else translateIntoUnwindRule row.cfa (row.register 6) (row.register 16)

def unwindFrame (row : UnwindTableRow) (regs : UnwindRegs) (isFirstFrame isSignalFrame : Bool) (read : ReadStack) :
    Except DwarfUnwinderError (UnwindResult UnwindRule × UnwindRegs) :=
  match rowRule row isSignalFrame with
  | some rule => .ok (.execRule rule, regs)
  | none => unwindFrameGeneric row regs isFirstFrame isSignalFrame read

theorem unwindFrameGeneric_ne (row : UnwindTableRow) (regs : UnwindRegs) (first signal : Bool) (read : ReadStack)
    (rule : UnwindRule) (regs' : UnwindRegs) :
    unwindFrameGeneric row regs first signal read ≠ .ok (.execRule rule, regs') := by
  intro h
  unfold unwindFrameGeneric at h
  split at h
  · cases h
  · simp only at h
    split at h
    · cases h
    · split at h
      · cases h
      · split at h
        · cases h
        · cases signal <;> simp at h

/-- Only a signal frame's row is reported as interrupted. -/
theorem unwindFrameGeneric_interrupted {row : UnwindTableRow} {regs regs' : UnwindRegs} {first signal : Bool}
    {read : ReadStack}
    {a : Nat} (h : unwindFrameGeneric row regs first signal read = .ok (.interrupted a, regs')) : signal = true := by
  unfold unwindFrameGeneric at h
  split at h
  · cases h
  · dsimp only at h
    split at h
    · cases h
    · split at h
      · cases h
      · split at h
        · cases h
        · cases signal with
          | true => rfl
          | false => cases h

def archX86 : Arch where
  Regs := UnwindRegs
  Rule := UnwindRule
  exec := exec
  fallbackRule := .useFramePointer
  ruleIfUncoveredByFde := .justReturnIfFirstFrameOtherwiseFp
  unwindFrame := unwindFrame
  rowRule := rowRule
  unwindFrame_rule row regs first signal read rule h := by simp [unwindFrame, h]
  unwindFrame_generic row regs first signal read rule regs' h := by
    simpa [unwindFrame, h] using unwindFrameGeneric_ne row regs first signal read rule regs'

/-! ## Crossing a signal frame -/

/-- The interrupted `bp` by its rule; without one it is the current one. -/
def interruptedBp (row : UnwindTableRow) (regs : UnwindRegs) (read : ReadStack) (cfa : Nat) : Option Nat :=
  match row.register 6 with
  | none => some regs.bp
  | some rule => evalRegisterRule regs.dwarfGet read cfa regs.bp (some rule)

/-- The row's rules give these values for the interrupted `sp`, `ip` and `bp`. -/
def Recovers (row : UnwindTableRow) (regs : UnwindRegs) (read : ReadStack) (cfa ra bp : Nat) : Prop :=
  evalCfaRule regs.dwarfGet read row.cfa = some cfa ∧
    evalRegisterRule regs.dwarfGet read cfa regs.ip (row.register 16) = some ra ∧
    interruptedBp row regs read cfa = some bp

/-- The return address the generic path takes: by its rule or, if that gives none, the word below
    the CFA. -/
def returnAddressOrBelow (row : UnwindTableRow) (regs : UnwindRegs) (read : ReadStack) (cfa : Nat) : Option Nat :=
  (evalRegisterRule regs.dwarfGet read cfa regs.ip (row.register 16)).or (read (wrappingSub cfa 8))

/-- `unwind_frame` with the registers it leaves: they are written past its last check. -/
def unwindFrameLeaving (row : UnwindTableRow) (regs : UnwindRegs) (isFirstFrame isSignalFrame : Bool)
    (read : ReadStack) :
    Except DwarfUnwinderError (UnwindResult UnwindRule) × UnwindRegs :=
  match unwindFrame row regs isFirstFrame isSignalFrame read with
  | .ok (result, regs) => (.ok result, regs)
  | .error e => (.error e, regs)

/-- Crossing a signal frame restores what the row's rules give for all three registers, or fails
    and leaves the registers. -/
def CrossesExactly (row : UnwindTableRow) (regs : UnwindRegs) (first : Bool) (read : ReadStack) : Prop :=
  (∀ a regs', unwindFrameLeaving row regs first true read = (.ok (.interrupted a), regs') →
    ∃ cfa ra bp, Recovers row regs read cfa ra bp ∧ a = ra ∧ regs'.ip = ra ∧ regs'.sp = cfa ∧ regs'.bp = bp) ∧
  ((¬ ∃ cfa ra bp, Recovers row regs read cfa ra bp) →
    ∃ e, unwindFrameLeaving row regs first true read = (.error e, regs))

/-- A signal frame is not crossed: its CFA is not to be had; the return address is neither by its
    rule nor below the CFA; or the frame is the current one again. -/
inductive NotCrossed (row : UnwindTableRow) (regs : UnwindRegs) (read : ReadStack) : Prop
  | cfaFails (h : evalCfaRule regs.dwarfGet read row.cfa = none)
  | noReturnAddress {cfa : Nat} (hcfa : evalCfaRule regs.dwarfGet read row.cfa = some cfa)
      (hra : evalRegisterRule regs.dwarfGet read cfa regs.ip (row.register 16) = none)
      (hbelow : read (wrappingSub cfa 8) = none)
  | unmoved (hcfa : evalCfaRule regs.dwarfGet read row.cfa = some regs.sp)
      (hra : evalRegisterRule regs.dwarfGet read regs.sp regs.ip (row.register 16) = some regs.ip)
  | unmovedBelow (hcfa : evalCfaRule regs.dwarfGet read row.cfa = some regs.sp)
      (hra : evalRegisterRule regs.dwarfGet read regs.sp regs.ip (row.register 16) = none)
      (hbelow : read (wrappingSub regs.sp 8) = some regs.ip)

/-- A signal frame's row is evaluated as it is. -/
theorem unwindFrame_signal (row : UnwindTableRow) (regs : UnwindRegs) (first : Bool) (read : ReadStack) :
    unwindFrame row regs first true read =
      match evalCfaRule regs.dwarfGet read row.cfa with
      | none => .error .couldNotRecoverCfa
      | some cfa =>
        match returnAddressOrBelow row regs read cfa with
        | none => .error .couldNotRecoverReturnAddress
        | some ra =>
          if cfa = regs.sp ∧ ra = regs.ip then .error .didNotAdvance
          else .ok (.interrupted ra,
            ((regs.setIp ra).set .rbp ((interruptedBp row regs read cfa).getD regs.bp)).set .rsp cfa) := by
  have hbp : ∀ cfa, (evalRegisterRule regs.dwarfGet read cfa regs.bp (row.register 6)).getD regs.bp =
      (interruptedBp row regs read cfa).getD regs.bp := by
    intro cfa
    unfold interruptedBp
    cases row.register 6 <;> rfl
  unfold unwindFrame rowRule unwindFrameGeneric returnAddressOrBelow
  simp only [if_true, hbp]
  cases evalCfaRule regs.dwarfGet read row.cfa with
  | none => rfl
  | some cfa =>
    dsimp only
    cases evalRegisterRule regs.dwarfGet read cfa regs.ip (row.register 16) with
    | some ra => simp
    | none =>
      dsimp only [Option.none_or]
      cases read (wrappingSub cfa 8) with
      | none => rfl
      | some ra => simp

/-- What crossing a signal frame yields, when it does not fail. -/
theorem unwindFrame_signal_cases {row : UnwindTableRow} {regs : UnwindRegs} {first : Bool} {read : ReadStack}
    {result : UnwindResult UnwindRule} {regs' : UnwindRegs}
    (h : unwindFrame row regs first true read = .ok (result, regs')) :
    ∃ cfa ra, evalCfaRule regs.dwarfGet read row.cfa = some cfa ∧ returnAddressOrBelow row regs read cfa = some ra ∧
      ¬ (cfa = regs.sp ∧ ra = regs.ip) ∧ result = .interrupted ra ∧
      regs' = ((regs.setIp ra).set .rbp ((interruptedBp row regs read cfa).getD regs.bp)).set .rsp cfa := by
  rw [unwindFrame_signal] at h
  split at h
  · cases h
  · rename_i cfa hcfa
    split at h
    · cases h
    · rename_i ra hra
      split at h
      · cases h
      · rename_i hmoved
        cases h
        exact ⟨cfa, ra, hcfa, hra, hmoved, rfl, rfl⟩

theorem returnAddressOrBelow_cases (row : UnwindTableRow) (regs : UnwindRegs) (read : ReadStack) (cfa : Nat) :
    (∃ ra, evalRegisterRule regs.dwarfGet read cfa regs.ip (row.register 16) = some ra ∧
      returnAddressOrBelow row regs read cfa = some ra) ∨
    evalRegisterRule regs.dwarfGet read cfa regs.ip (row.register 16) = none ∧
      returnAddressOrBelow row regs read cfa = read (wrappingSub cfa 8) := by
  unfold returnAddressOrBelow
  cases evalRegisterRule regs.dwarfGet read cfa regs.ip (row.register 16) with
  | some ra => exact .inl ⟨ra, rfl, rfl⟩
  | none => exact .inr ⟨rfl, rfl⟩

/-- Crossing fails in these cases alone. -/
theorem unwindFrame_signal_error_iff (row : UnwindTableRow) (regs : UnwindRegs) (first : Bool) (read : ReadStack) :
    (∃ e, unwindFrame row regs first true read = .error e) ↔ NotCrossed row regs read := by
  rw [unwindFrame_signal]
  constructor
  · intro h
    obtain ⟨e, h⟩ := h
    split at h
    · rename_i hcfa
      exact .cfaFails hcfa
    · rename_i cfa hcfa
      rcases returnAddressOrBelow_cases row regs read cfa with ⟨ra, hra, hor⟩ | ⟨hra, hor⟩
      · rw [hor] at h
        dsimp only at h
        split at h
        · rename_i hunmoved
          obtain ⟨rfl, rfl⟩ := hunmoved
          exact .unmoved hcfa hra
        · cases h
      · rw [hor] at h
        split at h
        · rename_i hbelow
          exact .noReturnAddress hcfa hra hbelow
        · rename_i ra hbelow
          split at h
          · rename_i hunmoved
            obtain ⟨rfl, rfl⟩ := hunmoved
            exact .unmovedBelow hcfa hra hbelow
          · cases h
  · intro h
    cases h with
    | cfaFails hcfa => simp [hcfa]
    | noReturnAddress hcfa hra hbelow => simp [hcfa, returnAddressOrBelow, hra, hbelow]
    | unmoved hcfa hra => simp [hcfa, returnAddressOrBelow, hra]
    | unmovedBelow hcfa hra hbelow => simp [hcfa, returnAddressOrBelow, hra, hbelow]

/-- The row's rules give values for the interrupted registers. -/
def RulesEvaluate (row : UnwindTableRow) (regs : UnwindRegs) (read : ReadStack) : Prop :=
  ∃ cfa, evalCfaRule regs.dwarfGet read row.cfa = some cfa ∧
    evalRegisterRule regs.dwarfGet read cfa regs.ip (row.register 16) ≠ none ∧
    (row.register 6 = none ∨ evalRegisterRule regs.dwarfGet read cfa regs.bp (row.register 6) ≠ none)

theorem interruptedBp_isSome {row : UnwindTableRow} {regs : UnwindRegs} {read : ReadStack} {cfa : Nat} :
    (∃ bp, interruptedBp row regs read cfa = some bp) ↔
      row.register 6 = none ∨ evalRegisterRule regs.dwarfGet read cfa regs.bp (row.register 6) ≠ none := by
  unfold interruptedBp
  cases row.register 6 with
  | none => simp
  | some rule => simp [Option.ne_none_iff_exists']

theorem rulesEvaluate_iff {row : UnwindTableRow} {regs : UnwindRegs} {read : ReadStack} :
    RulesEvaluate row regs read ↔ ∃ cfa ra bp, Recovers row regs read cfa ra bp := by
  constructor
  · intro h
    obtain ⟨cfa, hcfa, hra, hbp⟩ := h
    obtain ⟨ra, hra⟩ := Option.ne_none_iff_exists'.mp hra
    obtain ⟨bp, hbp⟩ := interruptedBp_isSome.mpr hbp
    exact ⟨cfa, ra, bp, hcfa, hra, hbp⟩
  · intro h
    obtain ⟨cfa, ra, bp, hcfa, hra, hbp⟩ := h
    exact ⟨cfa, hcfa, Option.ne_none_iff_exists'.mpr ⟨ra, hra⟩, interruptedBp_isSome.mp ⟨bp, hbp⟩⟩

/-- What crossing leaves: an error and the registers, or the result and what it wrote. -/
theorem unwindFrameLeaving_eq (row : UnwindTableRow) (regs : UnwindRegs) (first signal : Bool) (read : ReadStack) :
    (∃ e, unwindFrame row regs first signal read = .error e ∧
      unwindFrameLeaving row regs first signal read = (.error e, regs)) ∨
    ∃ result regs', unwindFrame row regs first signal read = .ok (result, regs') ∧
      unwindFrameLeaving row regs first signal read = (.ok result, regs') := by
  unfold unwindFrameLeaving
  cases unwindFrame row regs first signal read with
  | error e => exact .inl ⟨e, rfl, rfl⟩
  | ok r => exact .inr ⟨r.1, r.2, rfl, rfl⟩

/-- A signal frame is crossed exactly iff its CFA is not to be had; or the rules of the return
    address and, if the row has one, of `bp` give values; or the return address is neither by its
    rule nor below the CFA; or CFA and return address are the current `sp` and `ip`. -/
theorem signal_frame_exact_iff (row : UnwindTableRow) (regs : UnwindRegs) (first : Bool) (read : ReadStack) :
    CrossesExactly row regs first read ↔ NotCrossed row regs read ∨ RulesEvaluate row regs read := by
  rw [← unwindFrame_signal_error_iff row regs first read, rulesEvaluate_iff]
  unfold CrossesExactly
  rcases unwindFrameLeaving_eq row regs first true read with ⟨e, he, hleaves⟩ | ⟨result, regs', hok, hleaves⟩
  · rw [hleaves]
    refine iff_of_true ⟨nofun, ?_⟩ (.inl ⟨e, he⟩)
    intro _
    exact ⟨e, rfl⟩
  · rw [hleaves]
    obtain ⟨cfa, ra, hcfa, hra, -, rfl, rfl⟩ := unwindFrame_signal_cases hok
    have herror : ¬ ∃ e, unwindFrame row regs first true read = .error e := by
      intro h
      obtain ⟨e, he⟩ := h
      cases hok.symm.trans he
    constructor
    · intro h
      obtain ⟨cfa', ra', bp, hrec, -⟩ := h.1 ra _ rfl
      exact .inr ⟨cfa', ra', bp, hrec⟩
    · intro h
      obtain ⟨cfa', ra', bp, hcfa', hra', hbp⟩ := h.resolve_left herror
      -- the row's rules give the values that were taken
      obtain rfl := Option.some.inj (hcfa.symm.trans hcfa')
      obtain rfl : ra' = ra := by
        rw [returnAddressOrBelow, hra'] at hra
        exact Option.some.inj hra
      refine ⟨?_, fun hnone => absurd ⟨cfa, ra', bp, hcfa', hra', hbp⟩ hnone⟩
      intro a regs'' heq
      cases heq
      exact ⟨cfa, ra', bp, ⟨hcfa', hra', hbp⟩, rfl, by simp, by simp, by simp [hbp]⟩

/-- A signal frame's row as the kernel's trampoline has it: each register is a word of the saved
    context, the words at `rsp + 160`, `rsp + 168` and `rsp + 120`. -/
def trampolineRow : UnwindTableRow where
  cfa := .expression (.requiresRegister 7 fun sp => .requiresMemory (sp + 160) 8 none fun v => .complete (some v))
  register
    | 16 => some (.expression (.requiresRegister 7 fun sp => .complete (some (sp + 168))))
    | 6 => some (.expression (.requiresRegister 7 fun sp => .complete (some (sp + 120))))
    | _ => none

/-- A reader of the words at `0x70a0` and `0x70a8` that refuses the saved `bp` at `0x7078`. -/
def refusingRead : ReadStack
  | 0x70a0 => some 0x9000
  | 0x70a8 => some 0x401000
  | _ => none

/-- The saved `bp` is refused, and the frame is crossed with the handler's one. -/
theorem crossed_without_bp : ¬ CrossesExactly trampolineRow (.new 0x5000 0x7000 0x7f00) false refusingRead := by
  rintro ⟨h, -⟩
  obtain ⟨cfa, ra, bp, ⟨hcfa, -, hbp⟩, -⟩ := h 0x401000 _ rfl
  cases hcfa
  cases hbp

end FramehopUnwind.Unwinder.X86
