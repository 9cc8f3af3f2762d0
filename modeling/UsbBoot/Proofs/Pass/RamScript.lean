/-
What a RAM pass sends, and where it can be stopped.

Its writes are the chunks outside the chip, the write that halts the CPU, and the chunks
on the chip.  A stop falls into one of these three parts, and all that belongs to the
parts before has gone well then.  Sending chunks can be stopped ahead of each chunk and
at it, but not behind the last one: so a part that was stopped has not sent all it had.
-/
import UsbBoot.Proofs.Pass.Outcome

namespace UsbBoot

def Chunk.write (request : Request) (chunk : Chunk) : ControlWrite :=
  ⟨request, chunk.address, chunk.data⟩

namespace Pass

/-- Some chunks as writes by one request, in order. -/
def chunkWrites (request : Request) (list : List Chunk) : List ControlWrite :=
  list.map (Chunk.write request)

theorem mem_chunkWrites {request : Request} {list : List Chunk} {write : ControlWrite}
    (h : write ∈ chunkWrites request list) : ∃ chunk ∈ list, write = chunk.write request := by
  obtain ⟨chunk, hmem, rfl⟩ := List.mem_map.mp h
  exact ⟨chunk, hmem, rfl⟩

def externalWrites (list : List Chunk) : List ControlWrite :=
  chunkWrites .external (list.filter (!·.onChip))

def onChipWrites (list : List Chunk) : List ControlWrite :=
  chunkWrites .onChip (list.filter (·.onChip))

/-! ### The writes -/

theorem sends_sendChunks (request : Request) (total written : Nat) (list : List Chunk) :
    sends (sendChunks request total written list) = chunkWrites request list := by
  induction list generalizing written with
  | nil => rfl
  | cons chunk rest ih =>
      have hrest := ih (written + chunk.data.length)
      show chunk.write request :: sends (sendChunks request total _ rest) = _
      rw [hrest]
      rfl

theorem sends_externalActions (total : Nat) (external : List Chunk) :
    sends (externalActions total external) = chunkWrites .external external := by
  cases external with
  | nil => rfl
  | cons chunk rest => exact sends_sendChunks .external total 0 (chunk :: rest)

theorem sends_holdActions (profile : Chip.Profile) :
    sends (holdActions profile) = [holdWrite profile] := rfl

theorem sends_onChipActions (written total : Nat) (onChip : List Chunk) :
    sends (onChipActions written total onChip) = chunkWrites .onChip onChip :=
  sends_sendChunks .onChip total written onChip

/-- Chunks outside the chip, the halt, chunks on the chip. -/
theorem sends_ramScript (profile : Chip.Profile) (list : List Chunk) :
    sends (ramScript profile list)
      = externalWrites list ++ [holdWrite profile] ++ onChipWrites list := by
  simp only [ramScript, sends_append, sends_externalActions, sends_holdActions,
    sends_onChipActions, externalWrites, onChipWrites]

/-! ### Nothing is refused -/

theorem feasible_sendChunks (request : Request) (total written : Nat) (list : List Chunk) :
    Feasible (sendChunks request total written list) := by
  induction list generalizing written with
  | nil => simp [Feasible, sendChunks]
  | cons chunk rest ih =>
      intro cause hmem
      simp only [sendChunks, List.mem_cons, reduceCtorEq, false_or] at hmem
      exact ih _ cause hmem

theorem feasible_externalActions (total : Nat) (external : List Chunk) :
    Feasible (externalActions total external) := by
  rw [externalActions]
  split
  · simp [Feasible]
  · intro cause hmem
    simp only [List.mem_cons, reduceCtorEq, false_or] at hmem
    exact feasible_sendChunks _ _ _ _ cause hmem

/-- A RAM pass never comes upon what cannot be put into a transfer. -/
theorem feasible_ramScript (profile : Chip.Profile) (list : List Chunk) :
    Feasible (ramScript profile list) := by
  simp only [ramScript]
  refine feasible_append.mpr ⟨feasible_append.mpr ⟨feasible_externalActions _ _, ?_⟩, ?_⟩
  · simp [Feasible, holdActions]
  · intro cause hmem
    simp only [onChipActions, List.mem_cons, reduceCtorEq, false_or] at hmem
    exact feasible_sendChunks _ _ _ _ cause hmem

/-! ### Where it can be stopped -/

/-- Attempts to send some chunks by one request that end before all of them are sent. -/
inductive Unfinished (request : Request) : List Chunk → List Attempt → Prop
  /-- The next chunk is not attempted. -/
  | waiting (next : Chunk) (rest : List Chunk) : Unfinished request (next :: rest) []
  /-- The next chunk is attempted in vain. -/
  | failed (next : Chunk) (rest : List Chunk) (cause : Failure) :
    Unfinished request (next :: rest) [⟨next.write request, some cause⟩]
  /-- The next chunk is sent, but not all of those behind it. -/
  | sent (next : Chunk) {rest : List Chunk} {seen : List Attempt}
    (hrest : Unfinished request rest seen) :
    Unfinished request (next :: rest) (.ok (next.write request) :: seen)

/-- The chunks that were attempted come first among all of them. -/
theorem Unfinished.leading {request : Request} {list : List Chunk} {seen : List Attempt}
    (h : Unfinished request list seen) : seen.map Attempt.write <+: chunkWrites request list := by
  induction h with
  | waiting next rest => exact ⟨chunkWrites request (next :: rest), rfl⟩
  | failed next rest cause => exact ⟨chunkWrites request rest, rfl⟩
  | sent next hrest ih =>
      obtain ⟨unsent, hunsent⟩ := ih
      refine ⟨unsent, ?_⟩
      rw [List.map_cons, List.cons_append, hunsent]
      rfl

theorem Unfinished.ne_all {request : Request} {list : List Chunk} {seen : List Attempt}
    (h : Unfinished request list seen) : seen ≠ (chunkWrites request list).map Attempt.ok := by
  induction h with
  | waiting next rest => exact nofun
  | failed next rest cause => exact nofun
  | sent next hrest ih =>
      intro heq
      exact ih (List.cons.inj heq).2

/-- What was attempted when actions were stopped, the stop included. -/
def triedUntil (before : List Action) (last : List Event) : List Attempt :=
  (sends before).map Attempt.ok ++ attempts last

theorem triedUntil_append (xs ys : List Action) (last : List Event) :
    triedUntil (xs ++ ys) last = (sends xs).map Attempt.ok ++ triedUntil ys last := by
  simp [triedUntil]

theorem stop_cons {first action : Action} {rest before after : List Action}
    (h : first :: rest = before ++ action :: after) :
    (before = [] ∧ action = first) ∨
      ∃ later, before = first :: later ∧ rest = later ++ action :: after := by
  rcases List.cons_eq_append_iff.mp h with ⟨hnil, hhead⟩ | ⟨later, hbefore, hrest⟩
  · exact Or.inl ⟨hnil, (List.cons.inj hhead).1⟩
  · exact Or.inr ⟨later, hbefore, hrest⟩

/-- No stop is at an action that cannot stop. -/
theorem stop_behind {first action : Action} {rest before after : List Action} {cause : Failure}
    {last : List Event} (h : first :: rest = before ++ action :: after)
    (hstops : Stops action cause last) (hfirst : first.canStop = false) :
    ∃ later, before = first :: later ∧ rest = later ++ action :: after := by
  rcases stop_cons h with ⟨-, rfl⟩ | hlater
  · rw [hstops.canStop] at hfirst
    cases hfirst
  · exact hlater

/-- An element of two lists put together is in the first one or behind it. -/
theorem split_append {α : Type} {xs ys before after : List α} {x : α}
    (h : xs ++ ys = before ++ x :: after) :
    (∃ middle, xs = before ++ x :: middle) ∨
      ∃ later, before = xs ++ later ∧ ys = later ++ x :: after := by
  rcases List.append_eq_append_iff.mp h with ⟨later, hbefore, hys⟩ | ⟨middle, hxs, hrest⟩
  · exact Or.inr ⟨later, hbefore, hys⟩
  · cases middle with
    | nil => exact Or.inr ⟨[], by simpa using hxs.symm, by simpa using hrest.symm⟩
    | cons first middle =>
        obtain ⟨rfl, -⟩ := List.cons.inj hrest
        exact Or.inl ⟨middle, hxs⟩

section

variable {before after : List Action} {action : Action} {cause : Failure} {last : List Event}

theorem sendChunks_stopped {request : Request} {total written : Nat} {list : List Chunk}
    (h : sendChunks request total written list = before ++ action :: after)
    (hstops : Stops action cause last) : Unfinished request list (triedUntil before last) := by
  induction list generalizing written before with
  | nil => simp [sendChunks] at h
  | cons chunk rest ih =>
      -- Of the four actions for a chunk, only the question and the write can stop.
      rw [sendChunks] at h
      rcases stop_cons h with ⟨rfl, rfl⟩ | ⟨_, rfl, hnote⟩
      · cases hstops
        exact .waiting chunk rest
      obtain ⟨_, rfl, hsend⟩ := stop_behind hnote hstops rfl
      rcases stop_cons hsend with ⟨rfl, rfl⟩ | ⟨_, rfl, hreport⟩
      · cases hstops
        exact .failed chunk rest cause
      obtain ⟨_, rfl, hlater⟩ := stop_behind hreport hstops rfl
      have hrest := ih hlater
      exact .sent chunk hrest

theorem externalActions_stopped {total : Nat} {external : List Chunk}
    (h : externalActions total external = before ++ action :: after)
    (hstops : Stops action cause last) :
    Unfinished .external external (triedUntil before last) := by
  rw [externalActions] at h
  split at h
  · simp at h
  · obtain ⟨_, rfl, henter⟩ := stop_behind h hstops rfl
    obtain ⟨_, rfl, hsend⟩ := stop_behind henter hstops rfl
    have hsent := sendChunks_stopped hsend hstops
    exact hsent

theorem holdActions_stopped {profile : Chip.Profile}
    (h : holdActions profile = before ++ action :: after) (hstops : Stops action cause last) :
    triedUntil before last = [⟨holdWrite profile, some cause⟩] := by
  rw [holdActions] at h
  obtain ⟨_, rfl, hhold⟩ := stop_behind h hstops rfl
  obtain ⟨_, rfl, hsend⟩ := stop_behind hhold hstops rfl
  rcases stop_cons hsend with ⟨rfl, rfl⟩ | ⟨_, rfl, henter⟩
  · cases hstops
    rfl
  · obtain ⟨_, rfl, hnil⟩ := stop_behind henter hstops rfl
    simp at hnil

theorem onChipActions_stopped {written total : Nat} {onChip : List Chunk}
    (h : onChipActions written total onChip = before ++ action :: after)
    (hstops : Stops action cause last) :
    Unfinished .onChip onChip (triedUntil before last) := by
  rw [onChipActions] at h
  obtain ⟨_, rfl, hnote⟩ := stop_behind h hstops rfl
  obtain ⟨_, rfl, hsend⟩ := stop_behind hnote hstops rfl
  have hsent := sendChunks_stopped hsend hstops
  exact hsent

end

end Pass
end UsbBoot
