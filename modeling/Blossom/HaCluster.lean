import Blossom.HaTransition
import Mathlib.Logic.Relation

/-!
# A cluster of members

Members created from one genesis call their public operations in any order. A message is delivered
as it was sent, by the slot that produced it, any number of times, in any order or never.
-/

namespace Blossom

variable {W : Type}

/-- The configuration every member of a group is created from. -/
structure HaGenesis (W : Type) where
  groupId : W
  members : List (NodeIdentity W)
  parameters : HighAvailabilityParameters

/-- The members that have been created, by slot, and every message handed out so far. -/
structure Cluster (W : Type) where
  node : PerSlot (Option (HighAvailabilityRuntime W))
  sent : List (HaMessage W)

namespace Cluster

def initial : Cluster W := ⟨fun _ => none, []⟩

def withNode (c : Cluster W) (i : Fin 7) (rt : HighAvailabilityRuntime W) : Cluster W :=
  { c with node := Function.update c.node i (some rt) }

theorem withNode_eq_some {c : Cluster W} {i j : Fin 7} {rt rt' : HighAvailabilityRuntime W} :
    (c.withNode i rt).node j = some rt' ↔ j = i ∧ rt = rt' ∨ j ≠ i ∧ c.node j = some rt' := by
  by_cases hj : j = i
  · subst hj
    simp [withNode]
  · simp [withNode, hj]

theorem withNode_eq_none {c : Cluster W} {i j : Fin 7} {rt : HighAvailabilityRuntime W} :
    (c.withNode i rt).node j = none ↔ j ≠ i ∧ c.node j = none := by
  by_cases hj : j = i
  · subst hj
    simp [withNode]
  · simp [withNode, hj]

def afterCall (c : Cluster W) (i : Fin 7) (out : Outcome W (List (HaMessage W))) : Cluster W where
  node := Function.update c.node i (some out.2)
  sent := match out.1 with
    | .ok messages => c.sent ++ messages
    | .error _ => c.sent

/-- A message that may reach a member: one that was sent, or a handshake, which no member
acts upon. -/
def Delivers (c : Cluster W) (m : HaMessage W) : Prop :=
  m ∈ c.sent ∨ ∃ handshake, m = .handshake handshake

variable [ProtocolCrypto W] [AmendmentCodec W]

inductive Step (g : HaGenesis W) : Cluster W → Cluster W → Prop where
  | create {c : Cluster W} {i : Fin 7} {selfKey : W} {store : Option (HaDurableStore W)}
      {io : Bool} {rt : HighAvailabilityRuntime W} (hi : c.node i = none)
      (hstore : ∀ x ∈ store, x = .empty)
      (hrt : HighAvailabilityRuntime.create store g.groupId selfKey g.members g.parameters io =
        .ok rt) (hself : rt.state.selfSlot = i.val) : Step g c (c.withNode i rt)
  | call {c : Cluster W} {i : Fin 7} {rt : HighAvailabilityRuntime W} {op : Operation W}
      (hi : c.node i = some rt) (hop : op.snapshot = none)
      (hm : ∀ m ∈ op.message, c.Delivers m) : Step g c (c.afterCall i (op.apply rt))
  | restart {c : Cluster W} {i : Fin 7} {rt rt' : HighAvailabilityRuntime W}
      {store : HaDurableStore W} {selfKey : W} {io : Bool} (hi : c.node i = some rt)
      (hstore : rt.store = some store)
      (hopen : HighAvailabilityRuntime.openStore store g.groupId selfKey g.members g.parameters
        io = .ok rt') : Step g c (c.withNode i rt')

def Run (g : HaGenesis W) : Cluster W → Cluster W → Prop := Relation.ReflTransGen (Step g)

/-- A step chosen by an environment: the messages that were sent are delivered by number. -/
inductive Event (W : Type) where
  | create (i : Fin 7) (selfKey : W)
  | call (i : Fin 7) (op : Operation W)
  | deliver (i : Fin 7) (number : ℕ) (io : Bool)
  | restart (i : Fin 7) (selfKey : W)

def perform (g : HaGenesis W) (c : Cluster W) : Event W → Option (Cluster W)
  | .create i selfKey =>
    match c.node i, HighAvailabilityRuntime.create (some .empty) g.groupId selfKey g.members
        g.parameters true with
    | none, .ok rt => if rt.state.selfSlot = i.val then some (c.withNode i rt) else none
    | _, _ => none
  | .call i op =>
    match c.node i, op.message, op.snapshot with
    | some rt, none, none => some (c.afterCall i (op.apply rt))
    | _, _, _ => none
  | .deliver i number io =>
    match c.node i, c.sent[number]? with
    | some rt, some m => some (c.afterCall i ((Operation.receiveMessage m io).apply rt))
    | _, _ => none
  | .restart i selfKey =>
    match c.node i with
    | none => none
    | some rt =>
      match rt.store with
      | none => none
      | some store =>
        match HighAvailabilityRuntime.openStore store g.groupId selfKey g.members g.parameters
            true with
        | .ok rt => some (c.withNode i rt)
        | .error _ => none

def play (g : HaGenesis W) (events : List (Event W)) (c : Cluster W) : Option (Cluster W) :=
  events.foldlM (perform g) c

variable {g : HaGenesis W} {c c' : Cluster W}

theorem step_of_perform {event : Event W} (h : perform g c event = some c') : Step g c c' := by
  cases event with
  | create i selfKey =>
    simp only [perform] at h
    split at h
    · rename_i rt hi hrt
      split at h
      · rename_i hself
        cases h
        exact .create hi (by simp) hrt hself
      · cases h
    · cases h
  | call i op =>
    simp only [perform] at h
    split at h
    · rename_i rt hi hm hs
      cases h
      exact .call hi hs (by simp [hm])
    · cases h
  | deliver i number io =>
    simp only [perform] at h
    split at h
    · rename_i rt m hi hm
      cases h
      refine .call hi rfl ?_
      rintro x ⟨⟩
      exact .inl (List.mem_of_getElem? hm)
    · cases h
  | restart i selfKey =>
    simp only [perform] at h
    split at h
    · cases h
    · rename_i rt hi
      split at h
      · cases h
      · rename_i store hstore
        split at h
        · rename_i rt' hopen
          cases h
          exact .restart hi hstore hopen
        · cases h

theorem run_of_play {events : List (Event W)} (h : play g events c = some c') : Run g c c' := by
  unfold play at h
  induction events generalizing c with
  | nil =>
    cases h
    exact .refl
  | cons event events ih =>
    rw [List.foldlM_cons, Option.bind_eq_bind, Option.bind_eq_some_iff] at h
    obtain ⟨mid, hmid, h⟩ := h
    exact .head (step_of_perform hmid) (ih h)

end Cluster

end Blossom
