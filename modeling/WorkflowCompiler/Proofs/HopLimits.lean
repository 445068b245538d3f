import Mathlib.Data.List.Count
import WorkflowCompiler.Builder.Rendering

/-! Following references for a limited number of hops. More hops never change a result, and once
there are as many as there are places to go, more of them do not give one either: what is still
open then runs in a circle. -/

namespace WorkflowCompiler

/-- The first computation gives up, or both are the same. -/
def Refines (early late : Except Failure α) : Prop := early = .error (.ofCause .endless) ∨ early = late

namespace Refines

theorem refl (result : Except Failure α) : Refines result result := .inr rfl

theorem of_eq {early late : Except Failure α} (same : early = late) : Refines early late := .inr same

theorem antisymm {early late : Except Failure α} (one : Refines early late) (other : Refines late early) : early = late := by
  rcases one with ended | same
  · rcases other with ended' | same
    · rw [ended, ended']
    · exact same.symm
  · exact same

theorem bind {early late : Except Failure α} {next other : α → Except Failure β} (first : Refines early late)
    (later : ∀ value, Refines (next value) (other value)) : Refines (early >>= next) (late >>= other) := by
  rcases first with rfl | rfl
  · exact .inl rfl
  · cases early with
    | error failure => exact .inr rfl
    | ok value => exact later value

theorem mapM {items : List α} {make other : α → Except Failure β} (each : ∀ item ∈ items, Refines (make item) (other item)) :
    Refines (items.mapM make) (items.mapM other) := by
  induction items with
  | nil => exact refl _
  | cons item rest ih =>
    obtain ⟨first, later⟩ := List.forall_mem_cons.mp each
    rw [List.mapM_cons, List.mapM_cons]
    exact first.bind fun _ => (ih later).bind fun _ => refl _

end Refines

/-- One hop more at every place keeps what is found. -/
def Advances (present : List κ) (follow other : Nat → κ → Except Failure α) : Prop :=
  ∀ few many, (∀ place ∈ present, Refines (follow few place) (other many place)) →
    ∀ place ∈ present, Refines (follow (few + 1) place) (other (many + 1) place)

/-- A way to follow references, which finds nothing without hops. -/
structure Follows (present : List κ) (follow : Nat → κ → Except Failure α) : Prop where
  start : ∀ place, follow 0 place = .error (.ofCause .endless)
  advance : Advances present follow follow

namespace Follows

variable {present : List κ} {follow other : Nat → κ → Except Failure α}

theorem grow (follows : Follows present follow) (hops : Nat) :
    ∀ place ∈ present, Refines (follow hops place) (follow (hops + 1) place) := by
  induction hops with
  | zero => exact fun place _ => .inl (follows.start place)
  | succ hops ih => exact follows.advance hops (hops + 1) ih

/-- Another hop finds nothing new. -/
def Idle (present : List κ) (follow : Nat → κ → Except Failure α) (hops : Nat) : Prop :=
  ∀ place ∈ present, follow hops place = follow (hops + 1) place

theorem idle_succ (follows : Follows present follow) {hops : Nat} (idle : Idle present follow hops) :
    Idle present follow (hops + 1) := by
  intro place member
  have forth := follows.advance _ _ (fun place member => .of_eq (idle place member)) place member
  have back := follows.advance _ _ (fun place member => .of_eq (idle place member).symm) place member
  exact forth.antisymm back

theorem still (follows : Follows present follow) {hops : Nat} (idle : Idle present follow hops) (more : Nat) :
    ∀ place ∈ present, follow (hops + more) place = follow hops place := by
  induction more generalizing hops with
  | zero => exact fun _ _ => rfl
  | succ more ih =>
    intro place member
    rw [Nat.add_comm more, ← Nat.add_assoc, ih (follows.idle_succ idle) place member, idle place member]

open Classical in
/-- How many places are still open. -/
noncomputable def open? (present : List κ) (follow : Nat → κ → Except Failure α) (hops : Nat) : Nat :=
  present.countP fun place => follow hops place = .error (.ofCause .endless)

/-- A hop closes a place unless there is nothing more to find. -/
theorem closes (follows : Follows present follow) {hops : Nat} (busy : ¬ Idle present follow hops) :
    open? present follow (hops + 1) < open? present follow hops := by
  classical
  simp only [Idle, not_forall] at busy
  obtain ⟨place, member, found⟩ := busy
  have stays : ∀ place ∈ present, follow (hops + 1) place = .error (.ofCause .endless) →
      follow hops place = .error (.ofCause .endless) := by
    intro place member ended
    rcases follows.grow hops place member with before | same
    · exact before
    · rw [same, ended]
  have before : follow hops place = .error (.ofCause .endless) := (follows.grow hops place member).resolve_right found
  have among : open? present follow (hops + 1) =
      (present.filter fun place => follow hops place = .error (.ofCause .endless)).countP
        fun place => follow (hops + 1) place = .error (.ofCause .endless) := by
    rw [List.countP_filter]
    exact List.countP_congr fun place member => by simpa using stays place member
  have all : open? present follow hops = (present.filter fun place => follow hops place = .error (.ofCause .endless)).length :=
    List.countP_eq_length_filter
  rw [among, all, List.countP_lt_length_iff]
  refine ⟨place, List.mem_filter.mpr ⟨member, decide_eq_true before⟩, decide_eq_false fun ended => ?_⟩
  exact found (before.trans ended.symm)

/-- As many hops as there are places are enough. -/
theorem settled (follows : Follows present follow) {hops : Nat} (enough : present.length ≤ hops) :
    ∀ place ∈ present, follow hops place = follow present.length place := by
  have known (hops : Nat) : (∃ few < hops, Idle present follow few) ∨ open? present follow hops + hops ≤ present.length := by
    induction hops with
    | zero => exact .inr List.countP_le_length
    | succ hops ih =>
      rcases ih with ⟨few, less, idle⟩ | bound
      · exact .inl ⟨few, Nat.lt_succ_of_lt less, idle⟩
      · by_cases idle : Idle present follow hops
        · exact .inl ⟨hops, Nat.lt_succ_self hops, idle⟩
        · have fewer := follows.closes idle
          exact .inr (by omega)
  obtain ⟨few, less, idle⟩ : ∃ few ≤ present.length, Idle present follow few := by
    rcases known (present.length + 1) with ⟨few, less, idle⟩ | bound
    · exact ⟨few, Nat.le_of_lt_succ less, idle⟩
    · omega
  intro place member
  obtain ⟨more, rfl⟩ := Nat.exists_eq_add_of_le (Nat.le_trans less enough)
  obtain ⟨rest, whole⟩ := Nat.exists_eq_add_of_le less
  rw [whole, follows.still idle more place member, follows.still idle rest place member]

/-- Two ways that find the same hop by hop find the same with enough hops. -/
theorem agree (follows : Follows present follow) (others : Follows present other) (forth : Advances present follow other)
    (back : Advances present other follow) {hops more : Nat} (enough : present.length ≤ hops) (enoughMore : present.length ≤ more) :
    ∀ place ∈ present, follow hops place = other more place := by
  have each (hops : Nat) : ∀ place ∈ present, follow hops place = other hops place := by
    induction hops with
    | zero => exact fun place _ => (follows.start place).trans (others.start place).symm
    | succ hops ih =>
      intro place member
      have one := forth hops hops (fun place member => .of_eq (ih place member)) place member
      have two := back hops hops (fun place member => .of_eq (ih place member).symm) place member
      exact one.antisymm two
  intro place member
  rw [follows.settled enough place member, others.settled enoughMore place member, each present.length place member]

end Follows

end WorkflowCompiler
