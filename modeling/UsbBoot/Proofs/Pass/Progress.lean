/-
How far a pass tells that it has come.

A pass reports behind each chunk, and at no other time.  So its reports are the running totals of
the chunks that were transferred completely, in the order in which they are sent, whatever the
device answers and whenever the user gives up.  Which chunks these are is read off the attempts
alone: the legs of the pass are followed as long as everything written on them went well.

Letting the CPU run is left out of that, for it is no part of any leg; it is attempted last.
-/
import UsbBoot.Proofs.Pass.Legs

namespace UsbBoot.Pass

variable {σ : Type}

/-! ### Reports -/

/-- What an event reports: how many bytes are written, of how many. -/
def Event.call? : Event → Option (Nat × Nat)
  | .progress _ written total => some (written, total)
  | _ => none

/-- The reports among some events, in order. -/
def calls (events : List Event) : List (Nat × Nat) :=
  events.filterMap Event.call?

/-- The attempts to write, but for the last one, which is there to let the CPU run. -/
def bodyAttempts (events : List Event) : List Attempt :=
  (attempts events).dropLast

/-- How many chunks are transferred completely by some attempts: everything written for them
went well, and so did everything before. -/
def transferred : List Leg → List Attempt → Nat
  | [], _ => 0
  | leg :: rest, tried =>
    if leg.writes.map Attempt.ok <+: tried then
      leg.chunk.toList.length + transferred rest (tried.drop leg.writes.length)
    else 0

/-- Where the legs that are gone end, the count ends. -/
theorem transferred_append (gone : List Leg) {rest : List Leg} {tried : List Attempt}
    (h : ∀ leg ∈ rest.head?, ¬leg.writes.map Attempt.ok <+: tried) :
    transferred (gone ++ rest) ((gone.flatMap Leg.writes).map Attempt.ok ++ tried)
      = (carried gone).length := by
  induction gone with
  | nil =>
      cases rest with
      | nil => rfl
      | cons leg rest => exact if_neg (h leg rfl)
  | cons leg gone ih =>
      have hsplit : ((leg :: gone).flatMap Leg.writes).map Attempt.ok ++ tried
          = leg.writes.map Attempt.ok ++ ((gone.flatMap Leg.writes).map Attempt.ok ++ tried) := by
        rw [List.flatMap_cons, List.map_append, List.append_assoc]
      have hdrop : (leg.writes.map Attempt.ok
          ++ ((gone.flatMap Leg.writes).map Attempt.ok ++ tried)).drop leg.writes.length
            = (gone.flatMap Leg.writes).map Attempt.ok ++ tried :=
        List.drop_left' (List.length_map _)
      rw [hsplit, List.cons_append, transferred, if_pos (List.prefix_append ..), hdrop, ih,
        carried_cons, List.length_append]

/-- A leg is not gone as long as only a part of it was written, be it that a write failed. -/
theorem not_gone_of_part {writes part : List ControlWrite} {failed : List Attempt}
    (hpart : part <+: writes) (hne : part ≠ writes)
    (hfailed : ∀ attempt ∈ failed, attempt.failure ≠ none) :
    ¬writes.map Attempt.ok <+: part.map Attempt.ok ++ failed := by
  obtain ⟨more, rfl⟩ := hpart
  intro hgone
  rw [List.map_append, List.prefix_append_right_inj] at hgone
  cases more with
  | nil => simp at hne
  | cons write more =>
      obtain ⟨later, rfl⟩ := hgone
      exact hfailed (.ok write) List.mem_cons_self rfl

/-! ### Writes and reports -/

/-- Whether an event is a write or a report. -/
def Event.isStep : Event → Bool
  | .wrote .. | .progress .. => true
  | .note _ | .asked _ => false

/-- The writes and reports among some events. -/
def steps (events : List Event) : List Event :=
  events.filter Event.isStep

@[simp] theorem steps_append (xs ys : List Event) : steps (xs ++ ys) = steps xs ++ steps ys :=
  List.filter_append ..

theorem steps_deeds (events : List Event) : steps (deeds events) = steps events := by
  rw [steps, deeds, List.filter_filter]
  congr 1
  funext event
  cases event <;> rfl

theorem attempts_steps (events : List Event) : attempts (steps events) = attempts events := by
  rw [attempts, steps, List.filterMap_filter]
  congr 1
  funext event
  cases event <;> rfl

theorem calls_steps (events : List Event) : calls (steps events) = calls events := by
  rw [calls, steps, List.filterMap_filter]
  congr 1
  funext event
  cases event <;> rfl

@[simp] theorem calls_append (xs ys : List Event) : calls (xs ++ ys) = calls xs ++ calls ys :=
  List.filterMap_append ..

theorem steps_allDeeds (pass : String) (asks : Bool) (actions : List Action) :
    steps (allDeeds pass asks actions) = allDeeds pass false actions := by
  induction actions with
  | nil => rfl
  | cons action rest ih =>
      rw [show action :: rest = [action] ++ rest from rfl, allDeeds_append, allDeeds_append,
        steps_append, ih]
      congr 1
      cases action <;> cases asks <;> rfl

@[simp] theorem attempts_map_event (tried : List Attempt) :
    attempts (tried.map Attempt.event) = tried := by
  induction tried with
  | nil => rfl
  | cons attempt rest ih => exact congrArg (attempt :: ·) ih

@[simp] theorem calls_map_event (tried : List Attempt) : calls (tried.map Attempt.event) = [] := by
  induction tried with
  | nil => rfl
  | cons attempt rest ih => exact ih

theorem progress_not_mem_map_event {pass : String} {written total : Nat} {tried : List Attempt} :
    Event.progress pass written total ∉ tried.map Attempt.event := by
  intro hmem
  obtain ⟨attempt, -, hevent⟩ := List.mem_map.mp hmem
  cases hevent

/-! ### What is seen of legs that are gone -/

section

variable {pass : String} {total written : Nat}

theorem attempts_leg (leg : Leg) :
    attempts (leg.trail pass total written) = leg.writes.map Attempt.ok := by
  rw [Leg.trail, attempts_append, wellDone, attempts_map_event]
  obtain ⟨writes, _ | chunk⟩ := leg <;> exact List.append_nil _

theorem attempts_trail (legs : List Leg) :
    attempts (trail pass total written legs) = (legs.flatMap Leg.writes).map Attempt.ok := by
  induction legs generalizing written with
  | nil => rfl
  | cons leg rest ih =>
      rw [trail, attempts_append, attempts_leg, ih, List.flatMap_cons, List.map_append]

theorem calls_leg (leg : Leg) :
    calls (leg.trail pass total written)
      = leg.chunk.toList.map fun chunk => (written + chunk.data.length, total) := by
  rw [Leg.trail, calls_append, wellDone, calls_map_event]
  obtain ⟨writes, _ | chunk⟩ := leg <;> rfl

/-- The reports are running totals. -/
theorem calls_trail (legs : List Leg) :
    calls (trail pass total written legs) = (List.range (carried legs).length).map fun i =>
      (written + byteCount ((carried legs).take (i + 1)), total) := by
  induction legs generalizing written with
  | nil => rfl
  | cons leg rest ih =>
      rw [trail, calls_append, calls_leg, ih, carried_cons]
      cases leg.chunk with
      | none => rfl
      | some chunk => simp [List.range_succ_eq_map, byteCount, Nat.add_assoc]

theorem leg_split {leg : Leg} {before after : List Event} {name : String} {bytes limit : Nat}
    (h : leg.trail pass total written = before ++ .progress name bytes limit :: after) :
    leg.chunk.isSome ∧ name = pass ∧ before = wellDone leg.writes := by
  rcases split_append h with ⟨middle, hwrites⟩ | ⟨later, rfl, hreport⟩
  · have hmem : Event.progress name bytes limit ∈ wellDone leg.writes :=
      hwrites ▸ List.mem_append_right _ List.mem_cons_self
    exact absurd hmem progress_not_mem_map_event
  · obtain ⟨writes, _ | chunk⟩ := leg
    · simp at hreport
    · rcases List.append_eq_singleton_iff.mp hreport.symm with ⟨rfl, hevent⟩ | ⟨-, hnil⟩
      · obtain ⟨hevent, -⟩ := List.cons.inj hevent
        exact ⟨rfl, (Event.progress.inj hevent).1, List.append_nil _⟩
      · cases hnil

/-- A report stands where a leg that carries a chunk ends. -/
theorem trail_split {legs : List Leg} {before after : List Event} {name : String}
    {bytes limit : Nat}
    (h : trail pass total written legs = before ++ .progress name bytes limit :: after) :
    ∃ front leg back, legs = front ++ leg :: back ∧ leg.chunk.isSome ∧ name = pass ∧
      before = trail pass total written front ++ wellDone leg.writes := by
  induction legs generalizing written before with
  | nil => simp [trail] at h
  | cons leg rest ih =>
      rcases split_append h with ⟨middle, hleg⟩ | ⟨later, rfl, hrest⟩
      · obtain ⟨hchunk, hname, hbefore⟩ := leg_split hleg
        exact ⟨[], leg, rest, rfl, hchunk, hname, hbefore⟩
      · obtain ⟨front, other, back, rfl, hchunk, hname, rfl⟩ := ih hrest
        refine ⟨leg :: front, other, back, rfl, hchunk, hname, ?_⟩
        rw [trail, List.append_assoc]

end

/-! ### How far a pass comes -/

/-- Actions that hold a refusal at their end, if they hold one. -/
def RefusesLast (actions : List Action) : Prop :=
  ∀ before action after, actions = before ++ action :: after → Feasible before

theorem refusesLast_of_feasible {actions : List Action} (h : Feasible actions) :
    RefusesLast actions := by
  rintro before action after rfl
  exact (feasible_append.mp h).1

theorem refusesLast_of_refusal {front : List Action} (h : Feasible front) (cause : Failure) :
    RefusesLast (front ++ [.refuse cause]) := by
  intro before action after hsplit
  rcases split_append hsplit with ⟨middle, rfl⟩ | ⟨later, rfl, hlast⟩
  · exact (feasible_append.mp h).1
  · rcases stop_cons hlast with ⟨rfl, -⟩ | ⟨_, -, hnil⟩
    · rwa [List.append_nil]
    · simp at hnil

/-- Actions go well up to the first refusal. -/
theorem exists_refusal {actions : List Action} (h : ¬Feasible actions) :
    ∃ front cause back, actions = front ++ .refuse cause :: back ∧ Feasible front := by
  induction actions with
  | nil => exact absurd (fun _ => nofun) h
  | cons action rest ih =>
      by_cases hrefuse : ∃ cause, action = .refuse cause
      · obtain ⟨cause, rfl⟩ := hrefuse
        exact ⟨[], cause, rest, rfl, fun _ => nofun⟩
      · have hfirst : Feasible [action] := fun cause hmem =>
          hrefuse ⟨cause, (List.mem_singleton.mp hmem).symm⟩
        have hrest : ¬Feasible rest := fun hrest =>
          h (feasible_append.mpr ⟨hfirst, hrest⟩ : Feasible ([action] ++ rest))
        obtain ⟨front, cause, back, rfl, hfront⟩ := ih hrest
        exact ⟨action :: front, cause, back, rfl, feasible_append.mpr ⟨hfirst, hfront⟩⟩

/-- What stands behind a refusal does not count. -/
theorem Carries.refusal {pass : String} {total written : Nat} {legs : List Leg}
    {front back : List Action} {cause : Failure}
    (h : Carries pass total written legs (front ++ .refuse cause :: back)) :
    Carries pass total written legs (front ++ [.refuse cause]) where
  through hfeasible := absurd (List.mem_append_right _ List.mem_cons_self) (hfeasible cause)
  stopped before action after hsplit hfeasible hstop := by
    refine h.stopped before action (after ++ back) ?_ hfeasible hstop
    rw [← List.cons_append, ← List.append_assoc, ← hsplit]
    simp

/-- A pass that is allowed ends as actions do that go along its legs. -/
theorem run_ended_carries (port : Port σ) (target : Target) (pass : String) {plan : Plan}
    (engine : Engine) (state : σ) (h : plan.obstacle? target.profile = none) :
    ∃ actions, RefusesLast actions ∧ Carries pass plan.length 0 (plan.legs target) actions ∧
      Ended target.profile pass port.cancelled.isSome actions
        (run port target pass plan engine state) := by
  have hcarries := carries_script pass target plan
  by_cases hfeasible : Feasible (script target.profile target.identity plan)
  · exact ⟨_, refusesLast_of_feasible hfeasible, hcarries,
      run_ended port target pass engine state h⟩
  · obtain ⟨front, cause, back, hscript, hfront⟩ := exists_refusal hfeasible
    rw [hscript] at hcarries
    exact ⟨_, refusesLast_of_refusal hfront cause, hcarries.refusal,
      run_ended_refusal port target pass engine state h hscript⟩

/-- What stops a body is no report, and if it is a write then one that failed. -/
theorem Stops.failed {action : Action} {cause : Failure} {last : List Event}
    (h : Stops action cause last) :
    steps last = (attempts last).map Attempt.event ∧
      ∀ attempt ∈ attempts last, attempt.failure ≠ none := by
  cases h with
  | check => exact ⟨rfl, nofun⟩
  | send write cause => exact ⟨rfl, List.forall_mem_singleton.mpr nofun⟩
  | refuse => exact ⟨rfl, nofun⟩

/-- How far a pass came: some legs are gone, of the next one not everything was written, and
in the end, if anything was attempted at all, there was an attempt to let the CPU run. -/
structure Came (pass : String) (total : Nat) (legs : List Leg) (seen : List Event)
    (gone rest : List Leg) (tried : List Attempt) (final : Option Attempt) : Prop where
  split : legs = gone ++ rest
  ahead : ∀ leg ∈ rest.head?, ¬leg.writes.map Attempt.ok <+: tried
  steps : steps seen = trail pass total 0 gone ++ (tried ++ final.toList).map Attempt.event
  unreleased : final = none → gone = [] ∧ tried = []

theorem Ended.came {profile : Chip.Profile} {pass : String} {asks : Bool} {actions : List Action}
    {run : Run σ} {total : Nat} {legs : List Leg} (h : Ended profile pass asks actions run)
    (hlast : RefusesLast actions) (hcarries : Carries pass total 0 legs actions) :
    ∃ gone rest tried final, Came pass total legs run.events gone rest tried final ∧
      (run.failure = none → rest = []) := by
  cases h with
  | finished release feasible seen =>
      refine ⟨legs, [], [], some ⟨releaseWrite profile, release⟩,
        ⟨(List.append_nil _).symm, nofun, ?_, nofun⟩, fun _ => rfl⟩
      rw [← steps_deeds, seen, steps_append, steps_allDeeds, hcarries.through feasible]
      rfl
  | stopped release before after action cause last split stops seen failure =>
      obtain ⟨gone, leg, rest, part, rfl, hpart, hne, hbefore⟩ :=
        hcarries.stopped before action after split (hlast before action after split) stops.canStop
      obtain ⟨hsteps, hfailed⟩ := stops.failed
      refine ⟨gone, leg :: rest, part.map Attempt.ok ++ Pass.attempts last,
        some ⟨releaseWrite profile, release⟩, ⟨rfl, ?_, ?_, nofun⟩, ?_⟩
      · intro other hother
        obtain rfl := Option.some.inj hother
        exact not_gone_of_part hpart hne hfailed
      · rw [← steps_deeds, seen, steps_append, steps_append, steps_allDeeds, hbefore, hsteps,
          List.map_append, List.map_append, List.append_assoc, List.append_assoc,
          List.append_assoc]
        rfl
      · rw [failure]
        exact nofun

/-- Every pass comes some way, and one that succeeds comes all the way. -/
theorem run_came (port : Port σ) (target : Target) (pass : String) (plan : Plan)
    (engine : Engine) (state : σ) :
    ∃ gone rest tried final,
      Came pass plan.length (plan.legs target) (run port target pass plan engine state).events
        gone rest tried final ∧
      ((run port target pass plan engine state).failure = none → rest = []) := by
  cases hobstacle : plan.obstacle? target.profile with
  | none =>
      obtain ⟨actions, hlast, hcarries, hended⟩ :=
        run_ended_carries port target pass engine state hobstacle
      exact hended.came hlast hcarries
  | some cause =>
      rw [run_refused port target pass engine state hobstacle]
      refine ⟨[], plan.legs target, [], none, ⟨rfl, ?_, rfl, fun _ => ⟨rfl, rfl⟩⟩, nofun⟩
      intro leg hleg hgone
      refine writes_ne_nil_of_mem_legs leg (List.mem_of_mem_head? hleg) ?_
      exact List.map_eq_nil_iff.mp (List.prefix_nil.mp hgone)

namespace Came

variable {pass : String} {total : Nat} {legs gone rest : List Leg} {seen : List Event}
  {tried : List Attempt} {final : Option Attempt}

theorem calls_eq (h : Came pass total legs seen gone rest tried final) :
    calls seen = (List.range (carried gone).length).map fun i =>
      (byteCount ((carried legs).take (i + 1)), total) := by
  rw [← calls_steps, h.steps, calls_append, calls_map_event, List.append_nil, calls_trail]
  refine List.map_congr_left fun i hi => ?_
  -- The chunks of the legs that are gone are the first ones of all.
  have hbound := List.mem_range.mp hi
  rw [Nat.zero_add, h.split, carried_append, List.take_append_of_le_length hbound]

theorem bodyAttempts_eq (h : Came pass total legs seen gone rest tried final) :
    bodyAttempts seen = (gone.flatMap Leg.writes).map Attempt.ok ++ tried := by
  rw [bodyAttempts, ← attempts_steps, h.steps, attempts_append, attempts_map_event, attempts_trail]
  cases hfinal : final with
  | none =>
      obtain ⟨rfl, rfl⟩ := h.unreleased hfinal
      rfl
  | some attempt =>
      rw [Option.toList_some, ← List.append_assoc, List.dropLast_concat]

/-- All chunks of the legs that are gone are transferred, and no others. -/
theorem transferred_eq (h : Came pass total legs seen gone rest tried final) :
    transferred legs (bodyAttempts seen) = (carried gone).length := by
  rw [h.bodyAttempts_eq, h.split, transferred_append gone h.ahead]

/-- When something is reported, one more chunk is transferred than was reported before. -/
theorem report (h : Came pass total legs seen gone rest tried final)
    (hwrites : ∀ leg ∈ legs, leg.writes ≠ []) {before after : List Event} {name : String}
    {bytes limit : Nat} (hseen : seen = before ++ .progress name bytes limit :: after) :
    name = pass ∧ transferred legs (attempts before) = (calls before).length + 1 := by
  have hsteps := h.steps
  rw [hseen, steps_append] at hsteps
  rcases split_append hsteps.symm with ⟨middle, htrail⟩ | ⟨later, -, htried⟩
  · obtain ⟨front, leg, back, rfl, hchunk, hname, hbefore⟩ := trail_split htrail
    obtain ⟨chunk, hleg⟩ := Option.isSome_iff_exists.mp hchunk
    refine ⟨hname, ?_⟩
    have hgone : attempts before
        = ((front ++ [leg]).flatMap Leg.writes).map Attempt.ok ++ [] := by
      rw [← attempts_steps, hbefore, attempts_append, attempts_trail, wellDone,
        attempts_map_event]
      simp
    have hlegs : legs = (front ++ [leg]) ++ (back ++ rest) := by
      rw [h.split]
      simp
    have hahead : ∀ other ∈ (back ++ rest).head?, ¬other.writes.map Attempt.ok <+: [] := by
      intro other hother hprefix
      refine hwrites other ?_ (List.map_eq_nil_iff.mp (List.prefix_nil.mp hprefix))
      exact hlegs ▸ List.mem_append_right _ (List.mem_of_mem_head? hother)
    have hcalls : (calls before).length = (carried front).length := by
      rw [← calls_steps, hbefore, calls_append, calls_trail, wellDone, calls_map_event,
        List.append_nil, List.length_map, List.length_range]
    rw [hgone, hlegs, transferred_append _ hahead, hcalls, carried_append, carried_cons, hleg,
      List.length_append]
    rfl
  · have hmem : Event.progress name bytes limit ∈ (tried ++ final.toList).map Attempt.event :=
      htried ▸ List.mem_append_right _ List.mem_cons_self
    exact absurd hmem progress_not_mem_map_event

end Came

/-! ### Running totals -/

theorem byteCount_sent (plan : Plan) (profile : Chip.Profile) :
    byteCount (plan.sent profile) = plan.length := by
  rw [← byteCount_chunks plan profile]
  unfold Plan.sent
  have hsides := byteCount_filter (plan.chunks profile)
  cases plan.destination with
  | ram =>
      dsimp only
      rw [byteCount_append]
      omega
  | eeprom => rfl

/-- What is sent are chunks of the plan, so each of them holds a byte. -/
theorem length_pos_of_mem_sent {plan : Plan} {profile : Chip.Profile} {chunk : Chunk}
    (h : chunk ∈ plan.sent profile) : 0 < chunk.data.length := by
  refine (chunks_sound profile (plan.limit profile) plan.segments chunk ?_).nonempty
  unfold Plan.sent at h
  cases hdestination : plan.destination with
  | ram =>
      simp only [hdestination, List.mem_append, List.mem_filter] at h
      exact h.elim And.left And.left
  | eeprom =>
      simp only [hdestination] at h
      exact h

theorem byteCount_take_le (list : List Chunk) (count : Nat) :
    byteCount (list.take count) ≤ byteCount list := by
  have hwhole := congrArg byteCount (List.take_append_drop count list)
  rw [byteCount_append] at hwhole
  omega

/-- Running totals grow when no chunk is empty. -/
theorem byteCount_take_lt {list : List Chunk} (h : ∀ chunk ∈ list, 0 < chunk.data.length)
    {i j : Nat} (hlt : i < j) (hbound : j ≤ list.length) :
    byteCount (list.take i) < byteCount (list.take j) := by
  have hstep : byteCount (list.take (i + 1))
      = byteCount (list.take i) + list[i].data.length := by
    rw [List.take_succ_eq_append_getElem (by omega), byteCount_append]
    simp [byteCount, UsbBoot.total]
  have hrest := byteCount_take_le (list.take j) (i + 1)
  rw [List.take_take, Nat.min_eq_left (show i + 1 ≤ j from hlt)] at hrest
  have := h list[i] (List.getElem_mem _)
  omega

/--
**A pass tells exactly how far it has come.**

Whatever is answered, the legs of a pass make up its course and carry its chunks, those outside
the chip ahead of those on it in a RAM pass.  It reports as often as chunks are transferred
completely, each time the bytes of the chunks so far out of those of the plan, and only when
all that was written for the chunk went well.  The reports grow, none exceeds the whole, and
where a pass with something to write succeeds the last one tells of the whole.
-/
theorem run_progress (port : Port σ) (target : Target) (pass : String) (plan : Plan)
    (engine : Engine) (state : σ) :
    let run := run port target pass plan engine state
    let legs := plan.legs target
    let sent := plan.sent target.profile
    let told := calls run.events
    (legs.flatMap Leg.writes = plan.course target ∧ carried legs = sent) ∧
      told = (List.range (transferred legs (bodyAttempts run.events))).map
        (fun i => (byteCount (sent.take (i + 1)), plan.length)) ∧
      (∀ call ∈ told, call.1 ≤ call.2 ∧ call.2 = plan.length) ∧
      told.Pairwise (fun earlier later => earlier.1 < later.1) ∧
      (∀ before name written total after,
        run.events = before ++ .progress name written total :: after →
        name = pass ∧ transferred legs (attempts before) = (calls before).length + 1) ∧
      (run.failure = none → 0 < plan.length →
        told.getLast? = some (plan.length, plan.length)) := by
  intro run legs sent told
  obtain ⟨gone, rest, tried, final, hcame, hwhole⟩ :=
    run_came port target pass plan engine state
  have hsent : carried legs = sent := carried_legs plan target
  have hcount : transferred legs (bodyAttempts run.events) = (carried gone).length :=
    hcame.transferred_eq
  have htold : told = (List.range (carried gone).length).map fun i =>
      (byteCount (sent.take (i + 1)), plan.length) := hsent ▸ hcame.calls_eq
  have hbound : (carried gone).length ≤ sent.length := by
    rw [← hsent, show legs = gone ++ rest from hcame.split, carried_append, List.length_append]
    exact Nat.le_add_right ..
  refine ⟨⟨writes_legs plan target, hsent⟩, by rw [hcount, htold], ?_, ?_, ?_, ?_⟩
  · intro call hmem
    rw [htold] at hmem
    obtain ⟨i, -, rfl⟩ := List.mem_map.mp hmem
    exact ⟨byteCount_sent plan target.profile ▸ byteCount_take_le sent (i + 1), rfl⟩
  · rw [htold, List.pairwise_map]
    refine List.pairwise_lt_range.imp_of_mem fun _ hj hlt => ?_
    exact byteCount_take_lt (fun _ => length_pos_of_mem_sent) (Nat.succ_lt_succ hlt)
      (Nat.le_trans (List.mem_range.mp hj) hbound)
  · intro before name written total after hseen
    exact hcame.report writes_ne_nil_of_mem_legs hseen
  · intro hfailure hpos
    obtain rfl := hwhole hfailure
    have hall : carried gone = sent := by
      rw [← hsent, show legs = gone ++ [] from hcame.split, List.append_nil]
    rw [← byteCount_sent plan target.profile] at hpos
    have hsome : sent.length ≠ 0 := by
      intro hnone
      rw [show plan.sent target.profile = [] from List.length_eq_zero_iff.mp hnone] at hpos
      cases hpos
    rw [htold, hall, List.getLast?_map, List.getLast?_range, if_neg hsome, Option.map_some,
      Nat.sub_add_cancel (Nat.pos_of_ne_zero hsome), List.take_length,
      show byteCount sent = plan.length from byteCount_sent plan target.profile]

/-- What lies outside the chip is told of first.  Where the write to the chip fails, it is not
told of; where all goes well, the last report tells of the whole. -/
theorem run_progress_straddling :
    let run := fun failure => run (Schedule.port ⟨failure, none⟩ "part") blankPart "firmware"
      straddling .fresh ⟨0, 0⟩
    let well := run fun _ => none
    let cutOff := run fun n => if n = 2 then some .disconnected else none
    (well.failure = none ∧ 0 < straddling.length ∧
      calls well.events = [(2, 4), (4, 4)] ∧
      (calls well.events).getLast? = some (straddling.length, straddling.length)) ∧
    (∃ before after, cutOff.events = before ++ .progress "firmware" 2 4 :: after ∧
      transferred (straddling.legs blankPart) (attempts before) = (calls before).length + 1) ∧
    calls cutOff.events = [(2, 4)] := by
  intro run well cutOff
  have hwell : well.failure = none := by decide +kernel
  have hcalls : calls well.events = [(2, 4), (4, 4)] := by decide +kernel
  have hcutOff : calls cutOff.events = [(2, 4)] := by decide +kernel
  have htold : .progress "firmware" 2 4 ∈ cutOff.events := by decide +kernel
  refine ⟨⟨hwell, by decide, hcalls, ?_⟩, ?_, hcutOff⟩
  · obtain ⟨-, -, -, -, -, hlast⟩ := run_progress (Schedule.port ⟨fun _ => none, none⟩ "part")
      blankPart "firmware" straddling .fresh ⟨0, 0⟩
    exact hlast hwell (by decide)
  · obtain ⟨before, after, hsplit⟩ := List.append_of_mem htold
    obtain ⟨-, -, -, -, hreport, -⟩ := run_progress
      (Schedule.port ⟨fun n => if n = 2 then some .disconnected else none, none⟩ "part")
      blankPart "firmware" straddling .fresh ⟨0, 0⟩
    exact ⟨before, after, hsplit, (hreport _ _ _ _ _ hsplit).2⟩

end UsbBoot.Pass
