/-
The legs of a pass.

Some writes of a pass belong together: a chunk goes out in one write, or as a record in two, and
what halts the CPU, ends the image, spoils or seals it carries no chunk at all.  A pass goes along
such legs one after the other, and behind each leg that carries a chunk it tells how far it has
come.  When it is stopped it is underway on some leg: the legs before have been gone and told of,
and of the leg itself not everything has been written.  No pass is ever stopped between the last
write of a leg and the report of it, as a report cannot stop anything.

A record without room is refused before any of it is written.  What a script has behind such a
refusal does not count.
-/
import UsbBoot.Proofs.Pass.Course

namespace UsbBoot

/-- Writes of a pass that belong together. -/
structure Pass.Leg where
  writes : List ControlWrite
  /-- The chunk they carry, if they carry one. -/
  chunk : Option Chunk
  deriving DecidableEq, Repr

/-- The leg of a chunk that goes out in one write. -/
def Chunk.leg (request : Request) (chunk : Chunk) : Pass.Leg :=
  ⟨[chunk.write request], some chunk⟩

namespace Pass

/-! ### Which legs a pass has -/

/-- The chunks that some legs carry. -/
def carried (legs : List Leg) : List Chunk :=
  legs.flatMap fun leg => leg.chunk.toList

/-- The records of some chunks, from an offset on. -/
def recordLegs : UInt32 → List Chunk → List Leg
  | _, [] => []
  | offset, chunk :: rest =>
    ⟨recordWrites offset chunk.address chunk.data false, some chunk⟩ ::
      recordLegs (nextOffset offset chunk.data.length) rest

/-- The chunks of a pass in the order in which they are sent. -/
def Plan.sent (plan : Plan) (profile : Chip.Profile) : List Chunk :=
  match plan.destination with
  | .ram =>
    (plan.chunks profile).filter (!·.onChip) ++ (plan.chunks profile).filter (·.onChip)
  | .eeprom => plan.chunks profile

/-- What a pass is to write before it lets the CPU run, leg by leg. -/
def Plan.legs (plan : Plan) (target : Target) : List Leg :=
  let chunks := plan.chunks target.profile
  match plan.destination with
  | .ram =>
    (chunks.filter (!·.onChip)).map (Chunk.leg .external) ++
      ⟨[holdWrite target.profile], none⟩ :: (chunks.filter (·.onChip)).map (Chunk.leg .onChip)
  | .eeprom =>
    let start := target.profile.bootHeaderLength.toUInt32
    ⟨[spoilWrite], none⟩ :: recordLegs start chunks ++
      [⟨recordWrites (recordsEnd start chunks) target.profile.resetRegister
          [target.profile.releaseValue] true, none⟩,
        ⟨[sealWrite target.profile target.identity plan.config], none⟩]

@[simp] theorem carried_nil : carried [] = [] := rfl

theorem carried_cons (leg : Leg) (rest : List Leg) :
    carried (leg :: rest) = leg.chunk.toList ++ carried rest :=
  List.flatMap_cons

@[simp] theorem carried_append (xs ys : List Leg) :
    carried (xs ++ ys) = carried xs ++ carried ys :=
  List.flatMap_append

@[simp] theorem carried_map_leg (request : Request) (list : List Chunk) :
    carried (list.map (Chunk.leg request)) = list := by
  induction list with
  | nil => rfl
  | cons chunk rest ih => exact congrArg (chunk :: ·) ih

@[simp] theorem carried_recordLegs (offset : UInt32) (list : List Chunk) :
    carried (recordLegs offset list) = list := by
  induction list generalizing offset with
  | nil => rfl
  | cons chunk rest ih => exact congrArg (chunk :: ·) (ih _)

/-- The legs carry the chunks in the order in which they are sent. -/
theorem carried_legs (plan : Plan) (target : Target) :
    carried (plan.legs target) = plan.sent target.profile := by
  unfold Plan.legs Plan.sent
  cases plan.destination <;> simp [carried_cons]

theorem writes_map_leg (request : Request) (list : List Chunk) :
    (list.map (Chunk.leg request)).flatMap Leg.writes = chunkWrites request list := by
  induction list with
  | nil => rfl
  | cons chunk rest ih => exact congrArg (chunk.write request :: ·) ih

theorem writes_recordLegs (offset : UInt32) (list : List Chunk) :
    (recordLegs offset list).flatMap Leg.writes = chunkRecordWrites offset list := by
  induction list generalizing offset with
  | nil => rfl
  | cons chunk rest ih =>
      rw [recordLegs, List.flatMap_cons, ih, chunkRecordWrites]

/-- The legs make up the course of the pass. -/
theorem writes_legs (plan : Plan) (target : Target) :
    (plan.legs target).flatMap Leg.writes = plan.course target := by
  unfold Plan.legs Plan.course
  cases plan.destination <;>
    simp [writes_map_leg, writes_recordLegs, externalWrites, onChipWrites, imageWrites]

theorem writes_ne_nil_of_mem_recordLegs {offset : UInt32} {list : List Chunk} :
    ∀ leg ∈ recordLegs offset list, leg.writes ≠ [] := by
  induction list generalizing offset with
  | nil => exact nofun
  | cons chunk rest ih => exact List.forall_mem_cons.mpr ⟨nofun, ih⟩

/-- There is something to write on every leg. -/
theorem writes_ne_nil_of_mem_legs {plan : Plan} {target : Target} :
    ∀ leg ∈ plan.legs target, leg.writes ≠ [] := by
  have hsingle : ∀ request list, ∀ leg ∈ List.map (Chunk.leg request) list, leg.writes ≠ [] := by
    intro request list leg hmem
    obtain ⟨chunk, -, rfl⟩ := List.mem_map.mp hmem
    exact nofun
  unfold Plan.legs
  cases plan.destination <;> dsimp only
  · exact List.forall_mem_append.mpr ⟨hsingle _ _, List.forall_mem_cons.mpr ⟨nofun, hsingle _ _⟩⟩
  · refine List.forall_mem_append.mpr ⟨List.forall_mem_cons.mpr
      ⟨nofun, writes_ne_nil_of_mem_recordLegs⟩, ?_⟩
    exact List.forall_mem_cons.mpr ⟨nofun, List.forall_mem_singleton.mpr nofun⟩

/-! ### Going along legs -/

def Attempt.event (attempt : Attempt) : Event :=
  .wrote attempt.write attempt.failure

/-- What is seen of writes that go well. -/
def wellDone (writes : List ControlWrite) : List Event :=
  (writes.map Attempt.ok).map Attempt.event

/-- What is seen of a leg that is gone when `written` of `total` bytes are there already. -/
def Leg.trail (pass : String) (total written : Nat) (leg : Leg) : List Event :=
  wellDone leg.writes ++
    leg.chunk.toList.map fun chunk => .progress pass (written + chunk.data.length) total

/-- What is seen of legs that are gone one after the other. -/
def trail (pass : String) (total : Nat) : Nat → List Leg → List Event
  | _, [] => []
  | written, leg :: rest =>
    leg.trail pass total written ++ trail pass total (written + byteCount leg.chunk.toList) rest

theorem byteCount_append (xs ys : List Chunk) :
    byteCount (xs ++ ys) = byteCount xs + byteCount ys := by
  simp [byteCount]

theorem trail_append (pass : String) (total written : Nat) (xs ys : List Leg) :
    trail pass total written (xs ++ ys)
      = trail pass total written xs ++ trail pass total (written + byteCount (carried xs)) ys := by
  induction xs generalizing written with
  | nil => simp [trail, byteCount]
  | cons leg rest ih =>
      rw [List.cons_append, trail, trail, ih, carried_cons, byteCount_append,
        List.append_assoc, Nat.add_assoc]

/-- What is seen of a pass that is underway on some leg. -/
def Underway (pass : String) (total written : Nat) (legs : List Leg) (seen : List Event) : Prop :=
  ∃ gone leg rest part, legs = gone ++ leg :: rest ∧ part <+: leg.writes ∧ part ≠ leg.writes ∧
    seen = trail pass total written gone ++ wellDone part

/-- What comes of actions that go along legs. -/
structure Carries (pass : String) (total written : Nat) (legs : List Leg)
    (actions : List Action) : Prop where
  /-- All legs are gone, unless something is refused. -/
  through : Feasible actions → allDeeds pass false actions = trail pass total written legs
  /-- Where the actions can be stopped, they are underway. -/
  stopped : ∀ before action after, actions = before ++ action :: after → Feasible before →
    action.canStop = true → Underway pass total written legs (allDeeds pass false before)

section

variable {pass : String} {total written : Nat} {front back : List Leg} {seen : List Event}

theorem Underway.before (h : Underway pass total written front seen) (back : List Leg) :
    Underway pass total written (front ++ back) seen := by
  obtain ⟨gone, leg, rest, part, rfl, hpart, hne, hseen⟩ := h
  exact ⟨gone, leg, rest ++ back, part, by simp, hpart, hne, hseen⟩

theorem Underway.behind
    (h : Underway pass total (written + byteCount (carried front)) back seen) :
    Underway pass total written (front ++ back) (trail pass total written front ++ seen) := by
  obtain ⟨gone, leg, rest, part, rfl, hpart, hne, rfl⟩ := h
  refine ⟨front ++ gone, leg, rest, part, by simp, hpart, hne, ?_⟩
  rw [trail_append, List.append_assoc]

end

/-! ### Scripts go along their legs -/

section

variable {pass : String} {total written : Nat}

theorem Carries.append {front back : List Leg} {xs ys : List Action}
    (hfront : Carries pass total written front xs)
    (hback : Carries pass total (written + byteCount (carried front)) back ys) :
    Carries pass total written (front ++ back) (xs ++ ys) where
  through hfeasible := by
    obtain ⟨hxs, hys⟩ := feasible_append.mp hfeasible
    rw [allDeeds_append, hfront.through hxs, hback.through hys, trail_append]
  stopped before action after hsplit hfeasible hstop := by
    rcases split_append hsplit with ⟨middle, hxs⟩ | ⟨later, rfl, hys⟩
    · exact (hfront.stopped before action middle hxs hfeasible hstop).before back
    · obtain ⟨hgone, hlater⟩ := feasible_append.mp hfeasible
      rw [allDeeds_append, hfront.through hgone]
      exact (hback.stopped later action after hys hlater hstop).behind

/-- An action that goes unseen and cannot stop anything. -/
def Action.isSilent : Action → Bool
  | .note _ | .enter _ | .hold => true
  | .check | .send _ | .report .. | .refuse _ => false

theorem carries_silent {actions : List Action}
    (h : ∀ action ∈ actions, action.isSilent = true) : Carries pass total written [] actions where
  through _ := by
    refine List.flatMap_eq_nil_iff.mpr fun action hmem => ?_
    have hsilent := h action hmem
    cases action with
    | note | enter | hold => rfl
    | check | send | report | refuse => cases hsilent
  stopped before action after hsplit _ hstop := by
    have hsilent := h action (hsplit ▸ List.mem_append_right before List.mem_cons_self)
    cases action with
    | note | enter | hold | report => cases hstop
    | check | send | refuse => cases hsilent

/-- The reports of a leg that is gone. -/
def Leg.reports (total written : Nat) (leg : Leg) : List Action :=
  leg.chunk.toList.map fun chunk => .report (written + chunk.data.length) total

/-- Actions that report nothing. -/
def Reportless (actions : List Action) : Prop :=
  ∀ written total, Action.report written total ∉ actions

theorem allDeeds_of_reportless {actions : List Action} (h : Reportless actions) :
    allDeeds pass false actions = wellDone (sends actions) := by
  induction actions with
  | nil => rfl
  | cons action rest ih =>
      have hrest := ih fun written total hmem => h written total (List.mem_cons_of_mem _ hmem)
      cases action with
      | report written total => exact absurd List.mem_cons_self (h written total)
      | send write => exact congrArg _ hrest
      | note | enter | hold | check | refuse => exact hrest

theorem allDeeds_reports (leg : Leg) :
    allDeeds pass false (leg.reports total written)
      = leg.chunk.toList.map fun chunk => .progress pass (written + chunk.data.length) total := by
  obtain ⟨writes, _ | chunk⟩ := leg <;> rfl

/-- A leg whose last write is followed by its report at once. -/
theorem carries_leg {leg : Leg} {actions : List Action} {last : ControlWrite}
    (hreportless : Reportless actions) (hwrites : leg.writes = sends actions ++ [last]) :
    Carries pass total written [leg] (actions ++ .send last :: leg.reports total written) where
  through _ := by
    show _ = leg.trail pass total written ++ []
    rw [allDeeds_append, allDeeds_of_reportless hreportless, Leg.trail, hwrites, List.append_nil,
      ← allDeeds_reports]
    simp [allDeeds, Action.deeds, wellDone, Attempt.event, Attempt.ok]
  stopped before action after hsplit _ hstop := by
    rcases split_append hsplit with ⟨middle, hactions⟩ | ⟨later, rfl, hlast⟩
    · -- The stop is ahead of the last write.
      have hpart : Reportless before := fun written total hmem =>
        hreportless written total (hactions ▸ List.mem_append_left _ hmem)
      have hsends : leg.writes = sends before ++ (sends (action :: middle) ++ [last]) := by
        rw [hwrites, hactions, sends_append, List.append_assoc]
      refine ⟨[], leg, [], sends before, rfl, ⟨_, hsends.symm⟩, ?_, ?_⟩
      · rw [hsends]
        simp
      · exact allDeeds_of_reportless hpart
    · rcases stop_cons hlast with ⟨rfl, rfl⟩ | ⟨_, rfl, hreports⟩
      · refine ⟨[], leg, [], sends actions, rfl, ⟨_, hwrites.symm⟩, by simp [hwrites], ?_⟩
        rw [List.append_nil]
        exact allDeeds_of_reportless hreportless
      · have hmem : action ∈ leg.reports total written :=
          hreports ▸ List.mem_append_right _ List.mem_cons_self
        obtain ⟨chunk, -, rfl⟩ := List.mem_map.mp hmem
        cases hstop

/-- Where something is refused at once, all legs are left to go. -/
theorem carries_refused {leg : Leg} (hwrites : leg.writes ≠ []) (rest : List Leg)
    (cause : Failure) (actions : List Action) :
    Carries pass total written (leg :: rest) (.refuse cause :: actions) where
  through hfeasible := absurd List.mem_cons_self (hfeasible cause)
  stopped before action after hsplit hfeasible _ := by
    rcases stop_cons hsplit with ⟨rfl, rfl⟩ | ⟨_, rfl, -⟩
    · exact ⟨[], leg, rest, [], rfl, List.nil_prefix, hwrites.symm, rfl⟩
    · exact absurd List.mem_cons_self (hfeasible cause)

theorem carries_sendChunks (request : Request) (list : List Chunk) :
    Carries pass total written (list.map (Chunk.leg request))
      (sendChunks request total written list) := by
  induction list generalizing written with
  | nil => exact carries_silent nofun
  | cons chunk rest ih =>
      have hleg : Carries pass total written [chunk.leg request]
          ([.check, .note (chunkNote request chunk)] ++ .send (chunk.write request) ::
            (chunk.leg request).reports total written) :=
        carries_leg (by simp [Reportless]) rfl
      exact hleg.append ih

theorem exists_eepromWrite (offset : UInt32) (data : List UInt8) :
    ∃ line, eepromWrite offset data = [.note line, .send ⟨.eeprom, offset, data⟩] :=
  ⟨_, rfl⟩

theorem carries_record {leg : Leg} {offset address : UInt32} {data : List UInt8} {last : Bool}
    {between : List Action} (hwrites : leg.writes = recordWrites offset address data last)
    (hbetween : Reportless between) (hsends : sends between = []) :
    Carries pass total written [leg]
      (recordActions offset address data last between ++ leg.reports total written) := by
  by_cases hroom : Eeprom.HasRoom data.length address
  · obtain ⟨header, hheader⟩ :=
      exists_eepromWrite offset (Eeprom.headerBytes data.length address last)
    obtain ⟨line, hdata⟩ := exists_eepromWrite (offset + Eeprom.recordHeaderLength) data
    rw [recordActions_of_hasRoom hroom, hheader, hdata]
    have hleg : Carries pass total written [leg]
        ((between ++ [.note header, .send ⟨.eeprom, offset,
            Eeprom.headerBytes data.length address last⟩, .note line]) ++
          .send ⟨.eeprom, offset + Eeprom.recordHeaderLength, data⟩ ::
            leg.reports total written) := by
      refine carries_leg ?_ ?_
      · intro written total hmem
        simp only [List.mem_append, List.mem_cons, reduceCtorEq, List.not_mem_nil,
          or_false] at hmem
        exact hbetween written total hmem
      · rw [hwrites, sends_append, hsends]
        rfl
    simpa using hleg
  · rw [recordActions_of_not_hasRoom hroom]
    exact carries_refused (by rw [hwrites]; exact nofun) [] _ _

theorem carries_chunkRecords (offset : UInt32) (list : List Chunk) :
    Carries pass total written (recordLegs offset list)
      (chunkRecords total offset written list) := by
  induction list generalizing offset written with
  | nil => exact carries_silent nofun
  | cons chunk rest ih =>
      have hleg : Carries pass total written
          [⟨recordWrites offset chunk.address chunk.data false, some chunk⟩]
          (recordActions offset chunk.address chunk.data false [.check] ++
            [.report (written + chunk.data.length) total]) :=
        carries_record rfl (by simp [Reportless]) rfl
      have hboth := hleg.append (ih (nextOffset offset chunk.data.length))
      rw [List.append_assoc] at hboth
      exact hboth

/-- A write on a leg of its own, which carries no chunk. -/
theorem carries_write {actions : List Action} (h : ∀ action ∈ actions, action.isSilent = true)
    (write : ControlWrite) :
    Carries pass total written [⟨[write], none⟩] (actions ++ [.send write]) := by
  have hleg : Carries pass total written [⟨[write], none⟩] ([] ++ [.send write]) :=
    carries_leg (by simp [Reportless]) rfl
  exact (carries_silent h).append hleg

/-- What goes unseen may follow. -/
theorem Carries.silent {legs : List Leg} {xs ys : List Action}
    (h : Carries pass total written legs xs) (hys : ∀ action ∈ ys, action.isSilent = true) :
    Carries pass total written legs (xs ++ ys) := by
  have hboth := h.append (carries_silent hys)
  rwa [List.append_nil] at hboth

theorem carries_externalActions (list : List Chunk) :
    Carries pass total 0 (list.map (Chunk.leg .external)) (externalActions total list) := by
  cases list with
  | nil => exact carries_silent nofun
  | cons chunk rest =>
      have hopened : ∀ action ∈ [Action.note (.debug .engine ("Writing " ++
          toString (chunk :: rest).length ++ " external chunk(s) through the loader")),
          .enter .transferring], action.isSilent = true := by
        simp [Action.isSilent]
      exact (carries_silent hopened).append (carries_sendChunks .external (chunk :: rest))

theorem carries_holdActions (profile : Chip.Profile) :
    Carries pass total written [⟨[holdWrite profile], none⟩] (holdActions profile) := by
  have hheld := @carries_write pass total written
    [.note (registerNote "Holding CPU in reset" profile profile.holdValue), .hold]
    (by simp [Action.isSilent]) (holdWrite profile)
  exact hheld.silent (List.forall_mem_singleton.mpr rfl)

theorem carries_onChipActions (list : List Chunk) :
    Carries pass total written (list.map (Chunk.leg .onChip))
      (onChipActions written total list) := by
  have hopened : ∀ action ∈ [Action.enter .transferring, .note (.debug .engine ("Writing " ++
      toString list.length ++ " on-chip chunk(s)"))], action.isSilent = true := by
    simp [Action.isSilent]
  exact (carries_silent hopened).append (carries_sendChunks .onChip list)

end

theorem carries_ramScript (pass : String) (profile : Chip.Profile) (list : List Chunk) :
    Carries pass (byteCount (list.filter (·.onChip)) + byteCount (list.filter (!·.onChip))) 0
      ((list.filter (!·.onChip)).map (Chunk.leg .external) ++
        ⟨[holdWrite profile], none⟩ :: (list.filter (·.onChip)).map (Chunk.leg .onChip))
      (ramScript profile list) := by
  unfold ramScript
  rw [List.append_assoc]
  refine (carries_externalActions _).append ((carries_holdActions profile).append ?_)
  have hwritten : 0 + byteCount (carried ((list.filter (!·.onChip)).map (Chunk.leg .external)))
      + byteCount (carried [⟨[holdWrite profile], none⟩])
        = byteCount (list.filter (!·.onChip)) := by
    simp [carried_cons, byteCount]
  rw [hwritten]
  exact carries_onChipActions _

theorem carries_opening (pass : String) (total : Nat) (notes : List Log.Line) :
    Carries pass total 0 [⟨[spoilWrite], none⟩] (opening notes []) := by
  obtain ⟨line, hline⟩ := exists_eepromWrite 0 [Eeprom.noBoot]
  have hopened : ∀ action ∈ notes.map Action.note ++ [.enter .transferring, .note line],
      action.isSilent = true := by
    refine List.forall_mem_append.mpr ⟨fun action hmem => ?_, by simp [Action.isSilent]⟩
    obtain ⟨note, -, rfl⟩ := List.mem_map.mp hmem
    rfl
  have hspoiled := @carries_write pass total 0 _ hopened spoilWrite
  rw [List.append_assoc] at hspoiled
  rwa [opening, hline]

theorem carries_sealing (pass : String) (total written : Nat) (profile : Chip.Profile)
    (identity : Device.Identity) (config : Option UInt8) (stop : UInt32) :
    Carries pass total written [⟨[sealWrite profile identity config], none⟩]
      (sealing profile identity config stop) := by
  obtain ⟨line, hline⟩ :=
    exists_eepromWrite 0 (Eeprom.bootHeader profile identity (configByte profile config))
  have hsealed := @carries_write pass total written [.note line] (by simp [Action.isSilent])
    (sealWrite profile identity config)
  rw [sealing, hline]
  exact hsealed.silent (by simp [Action.isSilent])

theorem carries_eepromScript (pass : String) (total : Nat) (profile : Chip.Profile)
    (notes : List Log.Line) (identity : Device.Identity) (config : Option UInt8)
    (list : List Chunk) (stop : UInt32) :
    Carries pass total 0
      (⟨[spoilWrite], none⟩ :: recordLegs profile.bootHeaderLength.toUInt32 list ++
        [⟨recordWrites (recordsEnd profile.bootHeaderLength.toUInt32 list) profile.resetRegister
            [profile.releaseValue] true, none⟩, ⟨[sealWrite profile identity config], none⟩])
      (opening notes
        (recordsScript profile total list ++ sealing profile identity config stop)) := by
  have hlast : ∀ written, Carries pass total written
      [⟨recordWrites (recordsEnd profile.bootHeaderLength.toUInt32 list) profile.resetRegister
        [profile.releaseValue] true, none⟩]
      (recordActions (recordsEnd profile.bootHeaderLength.toUInt32 list) profile.resetRegister
        [profile.releaseValue] true [] ++ []) :=
    fun written => carries_record rfl (by simp [Reportless]) rfl
  rw [← List.nil_append (recordsScript ..), List.append_assoc, opening_append, recordsScript,
    List.append_assoc]
  simp only [List.append_nil] at hlast
  exact (carries_opening pass total notes).append ((carries_chunkRecords _ list).append
    ((hlast _).append (carries_sealing ..)))

theorem byteCount_eq_length (list : List Chunk) :
    byteCount list = (bytesOf (list.map Chunk.segment)).length := by
  induction list with
  | nil => rfl
  | cons chunk rest ih =>
      rw [List.map_cons, bytesOf_cons, List.length_append, ← ih]
      rfl

/-- Cutting a plan into chunks loses no byte. -/
theorem byteCount_chunks (plan : Plan) (profile : Chip.Profile) :
    byteCount (plan.chunks profile) = plan.length := by
  unfold Plan.chunks Plan.length chunks
  induction plan.segments with
  | nil => rfl
  | cons segment rest ih =>
      rw [List.flatMap_cons, byteCount_append, ih, byteCount_eq_length, bytesOf_runChunks]
      rfl

theorem byteCount_filter (list : List Chunk) :
    byteCount (list.filter (·.onChip)) + byteCount (list.filter (!·.onChip)) = byteCount list := by
  induction list with
  | nil => rfl
  | cons chunk rest ih =>
      simp only [byteCount] at ih ⊢
      cases hside : chunk.onChip <;> simp [hside, ← ih] <;> omega

/-- **A script goes along the legs of its plan.** -/
theorem carries_script (pass : String) (target : Target) (plan : Plan) :
    Carries pass plan.length 0 (plan.legs target)
      (script target.profile target.identity plan) := by
  have htotal := byteCount_filter (plan.chunks target.profile)
  rw [byteCount_chunks] at htotal
  have hram := carries_ramScript pass target.profile (plan.chunks target.profile)
  rw [htotal] at hram
  unfold Plan.legs
  cases hdestination : plan.destination with
  | ram =>
      rw [script_of_ram target.profile target.identity hdestination]
      exact hram
  | eeprom =>
      rw [script_eq_opening target.profile target.identity hdestination]
      exact carries_eepromScript ..

end Pass
end UsbBoot
