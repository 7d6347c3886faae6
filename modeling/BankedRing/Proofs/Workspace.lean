import BankedRing.Proofs.Polynomial.Formed
import BankedRing.Workspace

/-! Polynomials of a workspace. A step of a client on named polynomials is refused, and then
all of them are as before, or it stores one that is formed; and meanwhile anything may happen
to the controllers that polynomials are attached to. So every polynomial that ever gets a
name is formed, and either format can always be asked of it. -/
namespace BankedRing.Workspace

/-- Steps of a client on named polynomials and their parameters. -/
inductive Edit where
  | accept (name : String) (ringDimension : Nat) (moduli : List Word)
  | zero (name parameters : String) (format : Format)
  | ofTowers (name parameters : String) (towers : List Tower) (format : Format)
  | clone (name out : String)
  | attach (name owner : String) (split : Option Nat)
  | detach (name : String)
  | combine (x y out : String) (family : Family) (failure : Failure)
  | switchFormat (name : String)
  | setFormat (name : String) (format : Format)

def Edit.run : Edit → Step Unit
  | .accept name n moduli => do
    let _ ← storeParameters name (RingParameters.ofModuli n moduli)
  | .zero name parameters format =>
    createPolynomial name parameters fun p => .ok (TowerPolynomial.zero p format)
  | .ofTowers name parameters towers format =>
    createPolynomial name parameters fun p => TowerPolynomial.ofTowers p towers format
  | .clone name out => do storePolynomial out (← find polynomials name)
  | .attach name owner split => Workspace.attach name owner split
  | .detach name => do
    let _ ← Workspace.detach name
  | .combine x y out family failure => combinePolynomials x y out family failure
  | .switchFormat name => changePolynomial name TowerPolynomial.switchFormat
  | .setFormat name format => changePolynomial name fun x => x.setFormat format

/-- Workspaces that clients arrive at from an empty one. Whatever else goes on leaves
parameters and polynomials alone and the controllers in states that they can get into. -/
inductive Arises : Workspace → Prop
  | empty : Arises Workspace.empty
  | edit {w : Workspace} (edit : Edit) : Arises w → Arises (after (edit.run w))
  | elsewhere {w other : Workspace} : Arises w → other.parameters = w.parameters →
    other.polynomials = w.polynomials → other.registry.Attainable → Arises other

/-- A workspace of accepted parameters and formed polynomials. -/
structure Formed (w : Workspace) : Prop where
  registry : w.registry.Attainable
  parameters : ∀ entry ∈ w.parameters, entry.2.Accepted
  polynomials : ∀ entry ∈ w.polynomials, entry.2.Formed

theorem mem_of_insert {α : Type} {names : Names α} {name : String} {value : α} {entry : String × α}
    (h : entry ∈ names.insert name value) : entry = (name, value) ∨ entry ∈ names := by
  rcases List.mem_cons.mp h with new | old
  · exact .inl new
  · exact .inr (List.mem_filter.mp old).1

/-- All that an edit of a workspace can come to. -/
inductive Comes (w : Workspace) : EStateM.Result Refusal Workspace Unit → Prop
  | refused (refusal : Refusal) (registry : Registry) : registry.Attainable →
    Comes w (.error refusal { w with registry })
  | stored (name : String) (x : TowerPolynomial) (registry : Registry) : x.Formed →
      registry.Attainable →
    Comes w (.ok () { w with registry, polynomials := w.polynomials.insert name x })
  | accepted (name : String) (p : RingParameters) : p.Accepted →
    Comes w (.ok () { w with parameters := w.parameters.insert name p })

namespace Comes
variable {w : Workspace} {α : Type} {f : α → Step Unit}

theorem find (formed : w.Formed) {table : Workspace → Names α} {name : String}
    (found : ∀ value, (name, value) ∈ table w → Comes w (f value w)) :
    Comes w ((Workspace.find table name >>= f) w) := by
  cases here : (table w).lookup name with
  | none =>
    have missing : Workspace.find table name w = .error (.noSuchName name) w := by
      simp only [Workspace.find, run_get, here]
      rfl
    rw [run_bind_error missing]
    exact .refused _ w.registry formed.registry
  | some value =>
    have named : Workspace.find table name w = .ok value w := by
      simp only [Workspace.find, run_get, here]
      rfl
    rw [run_bind_ok named]
    obtain ⟨before, behind, split, _⟩ := List.lookup_eq_some_iff.mp here
    refine found value ?_
    rw [split]
    exact List.mem_append_right before List.mem_cons_self

theorem attempt (formed : w.Formed) {outcome : Except Error α}
    (went : ∀ value, outcome = .ok value → Comes w (f value w)) :
    Comes w ((Workspace.attempt outcome >>= f) w) := by
  cases outcome with
  | ok value => exact went value rfl
  | error e => exact .refused _ w.registry formed.registry

theorem store (formed : w.Formed) (name : String) {x : TowerPolynomial} (new : x.Formed) :
    Comes w (storePolynomial name x w) := .stored name x w.registry new formed.registry

/-- The workspace is formed afterwards, whether the step went through or was refused. -/
theorem formed {outcome : EStateM.Result Refusal Workspace Unit} (comes : Comes w outcome)
    (before : w.Formed) :
    Formed (after outcome) := by
  cases comes with
  | refused refusal registry attainable => exact ⟨attainable, before.parameters, before.polynomials⟩
  | stored name x registry new attainable =>
    refine ⟨attainable, before.parameters, fun entry member => ?_⟩
    rcases mem_of_insert member with rfl | old
    · exact new
    · exact before.polynomials entry old
  | accepted name p new =>
    refine ⟨before.registry, fun entry member => ?_, before.polynomials⟩
    rcases mem_of_insert member with rfl | old
    · exact new
    · exact before.parameters entry old

end Comes

theorem Edit.comes {w : Workspace} (formed : w.Formed) (edit : Edit) : Comes w (edit.run w) := by
  have changed : ∀ (name : String) (change : TowerPolynomial → Except Error TowerPolynomial),
      (∀ x z : TowerPolynomial, x.Formed → change x = .ok z → z.Formed) →
      Comes w (changePolynomial name change w) := by
    intro name change kept
    exact .find formed fun x named => .attempt formed fun z ran =>
      .store formed name (kept x z (formed.polynomials _ named) ran)
  cases edit with
  | accept name n moduli =>
    simp only [run, storeParameters, bind_assoc]
    exact .attempt formed fun p built => .accepted name p ⟨n, moduli, built⟩
  | zero name parameters format =>
    refine .find formed fun p named => .attempt formed fun x made => ?_
    cases made
    exact .store formed name (TowerPolynomial.zero_formed (formed.parameters _ named) format)
  | ofTowers name parameters towers format =>
    exact .find formed fun p named => .attempt formed fun x made =>
      .store formed name (TowerPolynomial.formed_of_ofTowers (formed.parameters _ named) made)
  | clone name out =>
    exact .find formed fun x named => .store formed out (formed.polynomials _ named)
  | attach name owner split =>
    refine .find formed fun handle _ => changed name _ fun x z own ran => ?_
    cases ran
    exact own.attach _
  | detach name =>
    simp only [run, Workspace.detach, bind_assoc]
    exact .find formed fun x named => .store formed name ((formed.polynomials _ named).attach none)
  | combine x y out family failure =>
    refine .find formed fun right namedRight => .find formed fun left namedLeft => ?_
    have attainable := TowerPolynomial.attainable_combine formed.registry family left right
    cases ran : TowerPolynomial.combine family left right w.registry with
    | ok result registry =>
      rw [ran] at attainable
      have new :=
        TowerPolynomial.formed_of_combine (formed.polynomials _ namedLeft)
          (formed.polynomials _ namedRight)
        formed.registry ran
      dsimp only
      exact .stored out result registry new attainable
    | error e registry =>
      rw [ran] at attainable
      dsimp only
      exact .refused _ registry attainable
  | switchFormat name =>
    refine changed name _ fun x z own ran => ?_
    obtain ⟨_, switched, new⟩ := TowerPolynomial.switchFormat_formed own
    cases switched.symm.trans ran
    exact new
  | setFormat name format =>
    refine changed name _ fun x z own ran => ?_
    obtain ⟨_, switched, new⟩ := TowerPolynomial.setFormat_formed own format
    cases switched.symm.trans ran
    exact new

theorem formed_of_arises {w : Workspace} (arises : Arises w) : w.Formed := by
  induction arises with
  | empty => exact ⟨.nil, nofun, nofun⟩
  | edit edit _ ih => exact (edit.comes ih).formed ih
  | elsewhere _ parameters polynomials attainable ih =>
    exact ⟨attainable, parameters ▸ ih.parameters, polynomials ▸ ih.polynomials⟩

/-- Every named polynomial is formed, whatever clients have done to it and to the controllers
that polynomials are attached to: its towers are those of its parameters' moduli, in order, of
full length and reduced. Either format can be asked of it, and a step that ends in an error
leaves all polynomials as they were. -/
theorem polynomials_formed {w : Workspace} (arises : Arises w) :
    (∀ name x, (name, x) ∈ w.polynomials → x.Formed ∧ (∃ z, x.switchFormat = .ok z) ∧
      ∀ format, ∃ z, x.setFormat format = .ok z) ∧
    ∀ (edit : Edit) (refusal : Refusal) (left : Workspace), edit.run w = .error refusal left →
      left.polynomials = w.polynomials := by
  have formed := formed_of_arises arises
  constructor
  · intro name x member
    have own := formed.polynomials _ member
    obtain ⟨z, switched, _⟩ := TowerPolynomial.switchFormat_formed own
    refine ⟨own, ⟨z, switched⟩, fun format => ?_⟩
    obtain ⟨there, set, _⟩ := TowerPolynomial.setFormat_formed own format
    exact ⟨there, set⟩
  · intro edit refusal left failed
    have comes := edit.comes formed
    rw [failed] at comes
    cases comes
    rfl

/-- A blank polynomial that is attached to a controller with standard settings. -/
theorem polynomials_formed_attached :
    ∃ (w : Workspace) (x : TowerPolynomial), Arises w ∧ ("x", x) ∈ w.polynomials ∧
      x.offload = some ⟨0, none⟩ ∧
      x.Formed ∧ ∃ z, x.switchFormat = .ok z := by
  obtain ⟨parameters, built⟩ := TowerPolynomial.smallest_accepted
  obtain ⟨c, started, _⟩ := Controller.standard_starts (fun _ => .error .notFound) []
  have accept : (Edit.accept "p" 2 [5]).run empty =
      .ok () { empty with parameters := [("p", parameters)] } := by
    simp only [Edit.run, storeParameters, built]
    rfl
  have accepted := Arises.edit (.accept "p" 2 [5]) .empty
  rw [accept] at accepted
  have stored := Arises.edit (.zero "x" "p" .coefficient) accepted
  let hosting : Workspace :=
    { empty with
      registry := [⟨c, false⟩]
      controllers := [("m", 0)]
      parameters := [("p", parameters)]
      polynomials := [("x", .zero parameters .coefficient)] }
  have hosted : Arises hosting :=
    .elsewhere stored rfl rfl (.of_started Controller.standard_accepted started)
  have attached := Arises.edit (.attach "x" "m" none) hosted
  let x : TowerPolynomial :=
    { TowerPolynomial.zero parameters .coefficient with offload := some ⟨0, none⟩ }
  have named : ("x", x) ∈ (after ((Edit.attach "x" "m" none).run hosting)).polynomials :=
    List.mem_cons_self
  obtain ⟨own, switched, _⟩ := (polynomials_formed attached).1 "x" x named
  exact ⟨_, x, attached, named, rfl, own, switched⟩

end BankedRing.Workspace
