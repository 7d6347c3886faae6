import BankedRing.Proofs.Device.Request

/-! What a step of a unit may write. A transfer writes the region that it names. A launch,
whatever its outcome, writes inside the target of the region that its symbols describe, and
a launch that refuses its parameters, or that cannot record its tasklets, writes nothing. -/
namespace BankedRing

theorem Bytes.length_toWords_le (bytes : List UInt8) :
    8 * (toWords bytes).length ≤ bytes.length := by
  fun_induction toWords bytes with
  | case1 _ _ _ _ _ _ _ _ rest ih =>
    simp only [List.length_cons]
    omega
  | case2 => exact Nat.zero_le _

namespace Operation

theorem length_overwrite {f : Word → Word → Checked Word} {sources : List (Word × Word)}
    {destination out : List Word} (h : overwrite f sources destination = .ok out) :
    out.length = destination.length := by
  induction sources generalizing destination out with
  | nil =>
    cases h
    rfl
  | cons s rest ih =>
    cases destination with
    | nil =>
      cases h
      rfl
    | cons d destination =>
      obtain ⟨_, _, h⟩ := bind_eq_ok.mp h
      obtain ⟨later, overwritten, h⟩ := bind_eq_ok.mp h
      cases h
      simp only [List.length_cons, ih overwritten]

theorem length_kernel {operation : Operation} {a b out : List Word}
    (h : operation.kernel a b = .ok out) :
    out.length = a.length := by
  obtain ⟨_, _, h⟩ := bind_eq_ok.mp h
  exact length_overwrite h

end Operation

namespace Bank
variable {span wide : Nat → Prop} {bank middle after : Bank}

/-- The words from one on, so many of them. -/
def Run (first count i : Nat) : Prop := first ≤ i ∧ i < first + count

/-- Between two banks no words differ but those of a span. -/
structure Confined (span : Nat → Prop) (before after : Bank) : Prop where
  capacity : after.capacity = before.capacity
  outside : ∀ i, ¬ span i → after.wordAt i = before.wordAt i

namespace Confined

theorem refl (bank : Bank) : bank.Confined span bank := ⟨rfl, fun _ _ => rfl⟩

theorem trans (h : bank.Confined span middle) (h' : middle.Confined span after) :
    bank.Confined span after :=
  ⟨h'.capacity.trans h.capacity, fun i out => (h'.outside i out).trans (h.outside i out)⟩

theorem mono (h : bank.Confined span after) (wider : ∀ i, span i → wide i) :
    bank.Confined wide after :=
  ⟨h.capacity, fun i out => h.outside i fun inside => out (wider i inside)⟩

theorem wordsAt (h : bank.Confined span after) {offset length : Nat}
    (apart : ∀ i, Run (offset / 8) (length / 8) i → ¬ span i) :
    after.wordsAt offset length = bank.wordsAt offset length := by
  apply wordsAt_eq (by rw [length_wordsAt])
  intro i inside
  rw [length_wordsAt] at inside
  rw [h.outside _ (apart _ (by unfold Run; omega)), getD_wordsAt bank offset inside]

end Confined

theorem confined_growTo (bank : Bank) (size : Nat) : bank.Confined span (bank.growTo size) :=
  ⟨rfl, fun i _ => wordAt_growTo bank size i⟩

theorem wordAt_setIfInBounds_other {words : Array Word} {capacity start index : Nat} {w : Word}
    (other : index ≠ start) :
    (Bank.mk capacity (words.setIfInBounds start w)).wordAt index =
      (Bank.mk capacity words).wordAt index := by
  simp only [wordAt, Array.getD_eq_getD_getElem?, Array.getElem?_setIfInBounds,
    if_neg (Ne.symm other)]

theorem confined_store (bank : Bank) (start : Nat) (words : List Word) :
    bank.Confined (Run start words.length) (bank.store start words) := by
  refine ⟨capacity_store _ _ _, ?_⟩
  intro i out
  induction words generalizing bank start with
  | nil => rfl
  | cons w rest ih =>
    unfold Run at out ih
    rw [List.length_cons] at out
    rw [store, ih _ _ (by omega), wordAt_setIfInBounds_other (by omega)]

theorem confined_reserve {offset length : Nat} (h : bank.reserve offset length = .ok after) :
    bank.Confined span after := by
  obtain ⟨_, rfl⟩ := reserve_eq_ok_iff.mp h
  exact confined_growTo _ _

theorem confined_write {offset : Nat} {data : List UInt8} (h : bank.write offset data = .ok after) :
    bank.Confined (Run (offset / 8) (data.length / 8)) after := by
  obtain ⟨reserved, ready, h⟩ := bind_eq_ok.mp h
  cases h
  have length := Bytes.length_toWords_le data
  refine (confined_reserve ready).trans ((confined_store _ _ _).mono fun i inside => ?_)
  unfold Run at inside ⊢
  omega

end Bank

namespace Stream
variable {span : Nat → Prop} {region : Region} {shape : Shape} {prepare : Except Fault Kernel}

section Tasklets
variable {launch : Launch}

/-- Every chunk's result has its place in a span. -/
def Launch.Within (launch : Launch) (span : Nat → Prop) : Prop :=
  ∀ k a b out, launch.pieces[k]? = some (a, b) → launch.kernel a b = .ok out →
    ∀ i, Bank.Run (launch.destination / 8 + k * launch.cacheWords) out.length i → span i

theorem walk_confined (within : launch.Within span) {pieces : List (Nat × List Word × List Word)}
    (assigned : ∀ p ∈ pieces, launch.pieces[p.1]? = some p.2) (bank : Bank) :
    bank.Confined span (launch.walk pieces bank).1 := by
  induction pieces generalizing bank with
  | nil => exact .refl bank
  | cons p rest ih =>
    obtain ⟨k, a, b⟩ := p
    have later := ih fun q member => assigned q (by simp [member])
    simp only [Launch.walk]
    cases computed : launch.kernel a b with
    | ok out =>
      have inside := within k a b out (assigned (k, a, b) (by simp)) computed
      exact ((Bank.confined_store bank _ out).mono inside).trans (later _)
    | error trap => exact .refl bank

theorem runTasklet_confined (within : launch.Within span) (tasklet : Nat) (state : Scratch × Bank) :
    state.2.Confined span (launch.runTasklet tasklet state).1.2 := by
  simp only [Launch.runTasklet]
  split
  · exact .refl _
  · exact walk_confined within (fun p member => (Launch.mem_assigned.mp member).1) _

theorem runTasklets_confined (within : launch.Within span) (tasklets : List Nat)
    (state : Scratch × Bank) :
    state.2.Confined span (launch.runTasklets tasklets state).1.2 := by
  induction tasklets generalizing state with
  | nil => exact .refl _
  | cons tasklet rest ih => exact (runTasklet_confined within tasklet state).trans (ih _)

end Tasklets

/-- The words of a region's target. -/
def Writes (region : Region) : Nat → Prop := Bank.Run (target region / 8) (region.length / 8)

/-- The chunks of a launch make up its operand, so their results stay inside its target. -/
theorem launchOf_within (positive : 0 < shape.cacheWords) {operation : Operation} {a b : List Word}
    (size : a.length = region.length / 8) (inside : ∀ i, Writes region i → span i) :
    (launchOf shape region operation.kernel a b).Within span := by
  intro k x y out found computed i own
  obtain ⟨piece, _⟩ := List.getElem?_zip_eq_some.mp found
  rw [getElem?_chunks positive] at piece
  split at piece
  · rename_i start
    cases piece
    have length := Operation.length_kernel computed
    rw [length_slice] at length
    apply inside
    simp only [launchOf, Bank.Run, Writes] at own ⊢
    omega
  · cases piece

theorem openRegion_confined (region : Region) (bank : Bank) :
    bank.Confined span (after (openRegion region bank)) := by
  have keeps : Keeps (bank.Confined span) (fun _ => True) (openRegion region) := by
    apply openRegion_keeps_of
    · intro middle after confined reserved
      exact confined.trans (Bank.confined_reserve reserved)
    · exact fun _ _ _ _ => trivial
    · exact fun _ _ _ _ _ => trivial
  exact (keeps bank (.refl bank)).1

/-- A launch writes inside its target, and nothing where it prepares no kernel or cannot
record its tasklets. -/
theorem run_confined (scratch : Scratch) (bank : Bank)
    (aimed : ∀ kernel, prepare = .ok kernel → shape.Recorded →
      (∃ operation : Operation, kernel = operation.kernel) ∧ ∀ i, Writes region i → span i) :
    bank.Confined span (after (run scratch shape region prepare bank)) := by
  have opening : bank.Confined span (after (openRegion region bank)) :=
    openRegion_confined region bank
  have ends := run_ends scratch shape region prepare bank
  generalize run scratch shape region prepare bank = outcome at ends
  -- Whatever stops the launch before its tasklets run, opening the regions changes no word.
  cases ends with
  | misshapen => exact .refl bank
  | refused opened | unrecorded opened | unprepared opened =>
    rw [opened] at opening
    exact opening
  | @stopped operands grown _ _ _ _ cache recorded opened ready ran
  | @finished operands grown _ _ _ cache recorded opened ready ran =>
    obtain ⟨⟨operation, rfl⟩, inside⟩ := aimed _ ready recorded
    have positive : 0 < shape.cacheWords := by
      rw [Shape.cacheWords]
      omega
    have within : (launchOf shape region operation.kernel operands.1 operands.2).Within span :=
      launchOf_within positive (length_of_openRegion opened) inside
    have walked :=
      runTasklets_confined within (List.range (max shape.tasklets 1)) (scratch.reset, grown)
    rw [ran] at walked
    rw [opened] at opening
    exact opening.trans walked

end Stream

namespace Device
variable {span wide : Nat → Prop} {device middle reached : Device}

/-- A unit as it was built, whose bank differs in no words but those of a span. -/
structure Confined (span : Nat → Prop) (before after : Device) : Prop where
  id : after.id = before.id
  scratch : after.scratchBytes = before.scratchBytes
  shape : after.shape = before.shape
  bank : before.bank.Confined span after.bank

namespace Confined

theorem refl (device : Device) : device.Confined span device := ⟨rfl, rfl, rfl, .refl _⟩

theorem trans (h : device.Confined span middle) (h' : middle.Confined span reached) :
    device.Confined span reached :=
  ⟨h'.id.trans h.id, h'.scratch.trans h.scratch, h'.shape.trans h.shape, h.bank.trans h'.bank⟩

theorem mono (h : device.Confined span reached) (wider : ∀ i, span i → wide i) :
    device.Confined wide reached :=
  ⟨h.id, h.scratch, h.shape, h.bank.mono wider⟩

theorem built {settings : Settings} {id : Nat} (h : device.Confined span reached)
    (built : device.Built settings id) : reached.Built settings id :=
  ⟨h.id.trans built.id, h.bank.capacity.trans built.bank, h.scratch.trans built.scratch,
    h.shape.trans built.shape⟩

end Confined

/-- The region whose target a launch writes, by the program and its symbols. A launch that
refuses its parameters has none. -/
def aim (device : Device) : Except Fault Region :=
  match device.program with
  | some (.tower _) => do
    let modulus ← device.symbolWord modulusSymbol
    let length ← device.symbolHalfWord lengthSymbol
    let _ ← supportedModulus modulus
    return towerRegion length.toNat
  | some (.elementwise _) => do
    let block ← ElementwiseBlock.decode (← device.symbol blockSymbol)
    let _ ← supportedModulus block.modulus
    return block.region
  | some .modular => do
    let block ← ModularBlock.decode (← device.symbol blockSymbol)
    block.check
    return block.region
  | _ => .error .noProgram

theorem stream_confined {region : Region} {prepare : Except Fault Kernel}
    (aimed : ∀ kernel, prepare = .ok kernel → device.shape.Recorded →
      (∃ operation : Operation, kernel = operation.kernel) ∧ ∀ i, Stream.Writes region i → span i)
      (line : String) :
    device.Confined span (after ((do stream region prepare; logLine line : Step Unit) device)) := by
  have ran := Stream.run_confined (Scratch.empty device.scratchBytes) device.bank aimed
  cases outcome : Stream.run (Scratch.empty device.scratchBytes) device.shape region prepare
    device.bank with
  | ok _ bank =>
    rw [outcome] at ran
    have streamed : stream region prepare device = .ok () { device with bank } := by
      rw [stream, outcome]
    rw [run_bind_ok streamed]
    exact ⟨rfl, rfl, rfl, ran⟩
  | error fault bank =>
    rw [outcome] at ran
    have streamed : stream region prepare device = .error fault { device with bank } := by
      rw [stream, outcome]
    rw [run_bind_error streamed]
    exact ⟨rfl, rfl, rfl, ran⟩

section Launching
variable (aimed : ∀ region, device.aim = .ok region → device.shape.Recorded →
    ∀ i, Stream.Writes region i → span i)
include aimed

theorem runTower_confined {family : Family} (program : device.program = some (.tower family)) :
    device.Confined span (after (runTower family device)) := by
  simp only [runTower, run_get]
  cases modulus : device.symbolWord modulusSymbol with
  | error fault => exact .refl device
  | ok m =>
  cases length : device.symbolHalfWord lengthSymbol with
  | error fault => exact .refl device
  | ok bytes =>
  simp only [run_lift_ok]
  refine stream_confined (fun kernel ready recorded => ?_) _
  obtain ⟨_, supported, ready⟩ := bind_eq_ok.mp ready
  obtain ⟨_, _, ready⟩ := bind_eq_ok.mp ready
  cases ready
  refine ⟨⟨_, rfl⟩, aimed (towerRegion bytes.toNat) ?_ recorded⟩
  simp only [aim, program, modulus, length, ok_bind, supported]
  rfl

theorem runElementwise_confined {family : Family}
    (program : device.program = some (.elementwise family)) :
    device.Confined span (after (runElementwise family device)) := by
  simp only [runElementwise, run_get]
  cases symbol : device.symbol blockSymbol with
  | error fault => exact .refl device
  | ok bytes =>
  cases decoded : ElementwiseBlock.decode bytes with
  | error fault =>
    simp only [run_lift_ok, decoded]
    exact .refl device
  | ok block =>
  simp only [run_lift_ok, decoded]
  split
  · exact .refl device
  split
  · exact .refl device
  refine stream_confined (fun kernel ready recorded => ?_) _
  obtain ⟨_, supported, ready⟩ := bind_eq_ok.mp ready
  have written : ∀ i, Stream.Writes block.region i → span i := by
    apply aimed block.region _ recorded
    simp only [aim, program, symbol, decoded, ok_bind, supported]
    rfl
  split at ready
  · obtain ⟨_, _, ready⟩ := bind_eq_ok.mp ready
    cases ready
    exact ⟨⟨_, rfl⟩, written⟩
  · cases ready
    exact ⟨⟨_, rfl⟩, written⟩

theorem runModular_confined (program : device.program = some .modular) :
    device.Confined span (after (runModular device)) := by
  simp only [runModular, run_get]
  cases symbol : device.symbol blockSymbol with
  | error fault => exact .refl device
  | ok bytes =>
  cases decoded : ModularBlock.decode bytes with
  | error fault =>
    simp only [run_lift_ok, decoded]
    exact .refl device
  | ok block =>
  simp only [run_lift_ok, decoded]
  split
  · exact .refl device
  refine stream_confined (fun kernel ready recorded => ?_) _
  obtain ⟨_, checked, ready⟩ := bind_eq_ok.mp ready
  cases ready
  refine ⟨⟨_, rfl⟩, aimed block.region ?_ recorded⟩
  simp only [aim, program, symbol, decoded, ok_bind, checked]
  rfl

/-- A launch writes inside the target that its symbols give it, whatever its outcome. -/
theorem launch_confined : device.Confined span (after (launch device)) := by
  simp only [launch, run_get]
  cases program : device.program with
  | none => exact .refl device
  | some loaded =>
    cases loaded with
    | boot => exact ⟨rfl, rfl, rfl, .refl _⟩
    | tower family => exact runTower_confined aimed program
    | elementwise family => exact runElementwise_confined aimed program
    | modular => exact runModular_confined aimed program

end Launching

/-- A transfer to the bank writes what it names; a transfer to a symbol leaves the bank. -/
theorem receive_confined (target : String) (offset : Nat) (data : List UInt8)
    (inside : target = bankTarget → ∀ i, Bank.Run (offset / 8) (data.length / 8) i → span i) :
    Keeps (device.Confined span) (fun _ => True) (receive target offset data) := by
  refine .get fun current confined => .lift_bind (fun written ran => .set ?_) fun _ _ => trivial
  refine confined.trans ?_
  unfold write at ran
  split at ran
  · rename_i named
    obtain ⟨bank, stored, ran⟩ := bind_eq_ok.mp ran
    cases ran
    exact ⟨rfl, rfl, rfl, (Bank.confined_write stored).mono (inside named)⟩
  · obtain ⟨old, _, ran⟩ := bind_eq_ok.mp ran
    dsimp only at ran
    split at ran
    · cases ran
    · cases ran
      exact ⟨rfl, rfl, rfl, .refl _⟩

end Device
end BankedRing
