import Procedoc.Logging
import Procedoc.Proofs.Shaping.Working

/-! # Which settings are in force

Calls reach the log in any order, each in an environment of its own, and some of them fail.

* `Logging.IsSound` says of a state that everything in it follows from the settings in force.  Each
  call leaves it so, and ends in one of four ways (`Logging.CallEnds`).
* `Logging.IsSound.settings_run` tells which settings are in force after calls in a row, and
  `Logging.Follows` what events show of them.
* `logging_follows_last_settings` puts these together.
-/

namespace Procedoc
set_option autoImplicit false
open ExceptT (result_bind result_get)

namespace Logging

/-- The log under settings. -/
def under (s : Settings) : Logging :=
  { settings := some s, isConfigured := true, output := some s.output }

/-! ## Calls -/

namespace Call

def given? (call : Call) : Option Settings :=
  match call.request with
  | .configure given => given
  | .getLogger _ => none

/-- The settings that a call without settings finds in its environment, if they are right. -/
def found? (call : Call) : Option Settings :=
  match call.given? with
  | some _ => none
  | none => (Settings.load call.env []).toOption

end Call

def lastGiven? (calls : List Call) : Option Settings := (calls.filterMap Call.given?).getLast?

/-- The settings that were found first by a call without settings. -/
def firstFound? (calls : List Call) : Option Settings := calls.findSome? Call.found?

@[simp] theorem lastGiven?_nil : lastGiven? [] = none := rfl

@[simp] theorem firstFound?_nil : firstFound? [] = none := rfl

theorem lastGiven?_cons (call : Call) (rest : List Call) :
    lastGiven? (call :: rest) = (lastGiven? rest).or call.given? := by
  cases h : call.given? with
  | none => simp [lastGiven?, h]
  | some s =>
    rw [lastGiven?, List.filterMap_cons_some h, List.getLast?_cons, lastGiven?]
    cases (rest.filterMap Call.given?).getLast? <;> rfl

theorem firstFound?_cons (call : Call) (rest : List Call) :
    firstFound? (call :: rest) = call.found?.or (firstFound? rest) := by
  rw [firstFound?, List.findSome?_cons, firstFound?]
  cases call.found? <;> rfl

/-! ## One call -/

variable {l : Logging} {call : Call}

/-- Whether everything follows from the settings in force. -/
structure IsSound (l : Logging) : Prop where
  isConfigured : l.isConfigured = l.settings.isSome
  output : l.output = l.settings.map Settings.output

theorem isSound_fresh : fresh.IsSound := ⟨rfl, rfl⟩

theorem isSound_under (s : Settings) : (under s).IsSound := ⟨rfl, rfl⟩

theorem IsSound.eq_under (h : l.IsSound) {s : Settings} (hs : l.settings = some s) :
    l = under s := by
  obtain ⟨settings, configured, output⟩ := l
  obtain ⟨hconfigured, houtput⟩ := h
  dsimp only at hs hconfigured houtput
  rw [hconfigured, houtput, hs]
  rfl

theorem IsSound.eq_fresh (h : l.IsSound) (hl : l.isConfigured = false) : l = fresh := by
  have hs : l.settings = none :=
    Option.isNone_iff_eq_none.mp (Option.isSome_eq_false_iff.mp (h.isConfigured.symm.trans hl))
  obtain ⟨settings, configured, output⟩ := l
  obtain ⟨hconfigured, houtput⟩ := h
  dsimp only at hs hconfigured houtput
  rw [hconfigured, houtput, hs]
  rfl

theorem result_work (call : Call) (l : Logging) :
    call.work.result l = (Work.configure call.given? call.env).result l := by
  obtain ⟨request, env⟩ := call
  cases request with
  | configure given => rfl
  | getLogger name =>
    change (Work.getLogger name env >>= fun _ => pure ()).result l = (Work.configure none env).result l
    rw [result_bind, Work.getLogger, result_bind]
    rcases (Work.configure none env).result l with ⟨_ | _, _⟩ <;> rfl

theorem result_of_given {s : Settings} (hs : call.given? = some s) :
    call.work.result l = (.ok (), under s) := by
  rw [result_work, hs, Work.configure, result_bind, result_get]
  dsimp only
  rw [Option.isNone_some, Bool.and_false, if_neg Bool.false_ne_true]
  rfl

theorem result_of_isConfigured (hl : l.isConfigured = true) (hg : call.given? = none) :
    call.work.result l = (.ok (), l) := by
  rw [result_work, hg, Work.configure, result_bind, result_get]
  dsimp only
  rw [hl, Option.isNone_none, Bool.and_true, if_pos rfl]
  rfl

/-- A fresh log is put under the settings of the environment where none are given, if they are
right, and else it stays fresh. -/
theorem result_fresh (hg : call.given? = none) : call.work.result fresh =
    match Settings.load call.env [] with
    | .ok s => (.ok (), under s)
    | .error issues => (.error issues, fresh) := by
  have hload : (Work.configure none call.env).result fresh =
      (Work.configure.loaded (Settings.load call.env []) >>= fun s => do
        modify fun l => { l with settings := some s }
        modify fun l => { l with output := some s.output }
        modify fun l => { l with isConfigured := true }).result fresh := rfl
  rw [result_work, hg, hload]
  cases Settings.load call.env [] <;> rfl

/-- How a call ends: settings that are given are put in force; without them nothing changes where the
log is configured, and else the settings of the environment are put in force, if they are right. -/
structure CallEnds (l : Logging) (call : Call) : Prop where
  given : ∀ s, call.given? = some s → l.outcome call = .ok () ∧ l.step call = under s
  kept : call.given? = none → l.isConfigured = true → l.outcome call = .ok () ∧ l.step call = l
  found : call.given? = none → l.isConfigured = false → ∀ s, Settings.load call.env [] = .ok s →
    l.outcome call = .ok () ∧ l.step call = under s
  failed : call.given? = none → l.isConfigured = false →
    ∀ issues, Settings.load call.env [] = .error issues →
      l.outcome call = .error issues ∧ l.step call = l

theorem ends_of_result {outcome : Except (List Issue) Unit} {l' : Logging}
    (h : call.work.result l = (outcome, l')) : l.outcome call = outcome ∧ l.step call = l' :=
  ⟨congrArg Prod.fst h, congrArg Prod.snd h⟩

theorem IsSound.callEnds (h : l.IsSound) (call : Call) : l.CallEnds call where
  given s hs := ends_of_result (result_of_given hs)
  kept hg hl := ends_of_result (result_of_isConfigured hl hg)
  found hg hl s hs := by
    obtain rfl := h.eq_fresh hl
    refine ends_of_result ?_
    rw [result_fresh hg, hs]
  failed hg hl issues hissues := by
    obtain rfl := h.eq_fresh hl
    refine ends_of_result ?_
    rw [result_fresh hg, hissues]

/-- A call leaves everything to follow from the settings in force: those that are given, or else
those that were in force, or else those that are found. -/
theorem IsSound.step_eq (h : l.IsSound) (call : Call) : (l.step call).IsSound ∧
    (l.step call).settings = call.given?.or (l.settings.or call.found?) := by
  obtain ⟨hgiven, hkept, hfound, hfailed⟩ := h.callEnds call
  cases hg : call.given? with
  | some s =>
    rw [(hgiven s hg).2]
    exact ⟨isSound_under s, rfl⟩
  | none =>
    cases hl : l.isConfigured with
    | true =>
      rw [(hkept hg hl).2]
      obtain ⟨s, hs⟩ := Option.isSome_iff_exists.mp (h.isConfigured.symm.trans hl)
      exact ⟨h, by rw [hs]; rfl⟩
    | false =>
      obtain rfl := h.eq_fresh hl
      rw [Call.found?, hg]
      cases hload : Settings.load call.env [] with
      | ok s =>
        rw [(hfound hg hl s hload).2]
        exact ⟨isSound_under s, rfl⟩
      | error issues =>
        rw [(hfailed hg hl issues hload).2]
        exact ⟨h, rfl⟩

/-! ## Calls in a row -/

theorem run_append (l : Logging) (calls more : List Call) :
    l.run (calls ++ more) = (l.run calls).run more := List.foldl_append ..

theorem IsSound.run (h : l.IsSound) (calls : List Call) : (l.run calls).IsSound := by
  induction calls generalizing l with
  | nil => exact h
  | cons call rest ih =>
    rw [run_cons]
    exact ih (h.step_eq call).1

/-- The settings in force after some calls are those given last; without such, those in force
before; and without such, those that were found first. -/
theorem IsSound.settings_run (h : l.IsSound) (calls : List Call) : (l.run calls).settings =
    (lastGiven? calls).or (l.settings.or (firstFound? calls)) := by
  induction calls generalizing l with
  | nil => simp
  | cons call rest ih =>
    obtain ⟨hsound, hsettings⟩ := h.step_eq call
    calc ((l.run (call :: rest)).settings)
        = (lastGiven? rest).or ((l.step call).settings.or (firstFound? rest)) := by
          rw [run_cons, ih hsound]
      _ = (lastGiven? rest).or ((call.given?.or (l.settings.or call.found?)).or
            (firstFound? rest)) := by rw [hsettings]
      _ = ((lastGiven? rest).or call.given?).or (l.settings.or (call.found?.or (firstFound? rest))) := by
          simp only [Option.or_assoc]
      _ = _ := by rw [lastGiven?_cons, firstFound?_cons]

theorem IsSound.isConfigured_run (h : l.IsSound) (hl : l.isConfigured = true) (calls : List Call) :
    (l.run calls).isConfigured = true := by
  rw [h.isConfigured, Option.isSome_iff_exists] at hl
  obtain ⟨s, hs⟩ := hl
  rw [(h.run calls).isConfigured, h.settings_run, hs]
  cases lastGiven? calls <;> rfl

theorem Call.given?_congr {other : Call} (hr : call.request = other.request) :
    call.given? = other.given? := by
  rw [Call.given?, hr, Call.given?]

theorem IsSound.step_congr {other : Call} (h : l.IsSound) (hl : l.isConfigured = true)
    (hr : call.request = other.request) : l.step call = l.step other := by
  have hgiven := Call.given?_congr hr
  cases hg : call.given? with
  | some s => rw [((h.callEnds call).given s hg).2, ((h.callEnds other).given s (hgiven ▸ hg)).2]
  | none => rw [((h.callEnds call).kept hg hl).2, ((h.callEnds other).kept (hgiven ▸ hg) hl).2]

/-- Once the log is configured, the environments of calls do not count any more. -/
theorem IsSound.run_congr (h : l.IsSound) (hl : l.isConfigured = true) {calls others : List Call}
    (hr : calls.map Call.request = others.map Call.request) : l.run calls = l.run others := by
  induction calls generalizing l others with
  | nil =>
    rw [List.map_nil, eq_comm, List.map_eq_nil_iff] at hr
    rw [hr]
  | cons call rest ih =>
    obtain ⟨other, rest', rfl, hcall, hrest⟩ := List.map_eq_cons_iff.mp hr.symm
    have hconfigured : (l.step call).isConfigured = true := h.isConfigured_run hl [call]
    rw [run_cons, run_cons, ← h.step_congr hl hcall.symm]
    exact ih (h.step_eq call).1 hconfigured hrest.symm

/-! ## Events -/

/-- What is logged, and how, is as the settings ask. -/
structure Follows (l : Logging) (s : Settings) : Prop where
  output : l.output = some { level := s.logLevel, renderer := if s.logJson then .json else .console }
  context : ∀ event key, Entries.get? (l.context event) key =
    if key = "environment" then some (.str s.environment)
    else if key = "app_version" then some (.str s.appVersion)
    else if key = "app_name" then some (.str s.appName)
    else Entries.get? event key
  /-- An event below the level is not logged, and any other is, with the names of the application where
  lines are objects. -/
  emit : ∀ logger level event fields lines, l.emit logger level event fields = some lines →
    (lines = [] ↔ level.weight < s.logLevel.weight) ∧
    ∀ line ∈ lines, line.level = level ∧ (line.event.isSome = true ↔ s.logJson = true) ∧
      ∀ j, line.event = some j → j.get? "app_name" = some (.str s.appName) ∧
        j.get? "app_version" = some (.str s.appVersion) ∧
        j.get? "environment" = some (.str s.environment)

theorem get?_context (s : Settings) (event : Entries Json) (key : String) :
    Entries.get? ((under s).context event) key =
      if key = "environment" then some (.str s.environment)
      else if key = "app_version" then some (.str s.appVersion)
      else if key = "app_name" then some (.str s.appName)
      else Entries.get? event key := by
  simp only [context, under, Option.getD_some, Entries.get?_put, eq_comm (b := key)]

theorem follows_under (s : Settings) : (under s).Follows s where
  output := rfl
  context := get?_context s
  emit := by
    intro logger level event fields lines h
    unfold emit at h
    split at h
    · cases h
    · rw [show (under s).output = some s.output from rfl] at h
      dsimp only at h
      split at h
      · rename_i hlight
        cases h
        exact ⟨iff_of_true rfl hlight, fun _ hline => by cases hline⟩
      · rename_i hheavy
        cases h
        refine ⟨iff_of_false (List.cons_ne_nil _ _) hheavy, List.forall_mem_singleton.mpr ⟨rfl, ?_⟩⟩
        have hrenderer : s.output.renderer = if s.logJson then .json else .console := rfl
        rw [hrenderer]
        cases s.logJson with
        | false => exact ⟨iff_of_false Bool.false_ne_true Bool.false_ne_true, fun j hj => by cases hj⟩
        | true =>
          refine ⟨iff_of_true rfl rfl, fun j hj => ?_⟩
          cases hj
          exact ⟨get?_context s _ _, get?_context s _ _, get?_context s _ _⟩

end Logging

/-- After any calls the settings in force are those that were given last, or, if none were given,
those that a call without settings found first; what is logged, and how, is as they ask.  A log that
is configured stays so, and from then on no environment counts: a call without settings changes
nothing.  Nor does one that finds wrong settings. -/
theorem logging_follows_last_settings (calls : List Logging.Call) :
    (Logging.fresh.run calls).settings =
      (Logging.lastGiven? calls).or (Logging.firstFound? calls) ∧
    (Logging.fresh.run calls).IsSound ∧
    (∀ s, (Logging.fresh.run calls).settings = some s → (Logging.fresh.run calls).Follows s) ∧
    (∀ call, (Logging.fresh.run calls).CallEnds call) ∧
    ((Logging.fresh.run calls).isConfigured = true → ∀ more,
      (Logging.fresh.run (calls ++ more)).isConfigured = true ∧
      ∀ others, more.map Logging.Call.request = others.map Logging.Call.request →
        Logging.fresh.run (calls ++ more) = Logging.fresh.run (calls ++ others)) := by
  have hsound := Logging.isSound_fresh.run calls
  refine ⟨Logging.isSound_fresh.settings_run calls, hsound, fun s hs => ?_, hsound.callEnds,
    fun hl more => ⟨?_, fun others hr => ?_⟩⟩
  · rw [hsound.eq_under hs]
    exact Logging.follows_under s
  · rw [Logging.run_append]
    exact hsound.isConfigured_run hl more
  · rw [Logging.run_append, Logging.run_append]
    exact hsound.run_congr hl hr

/-- Settings under which lines are objects. -/
def objectLines : Settings := { appName := "notes", logJson := true }

/-- Calls of which the first finds wrong settings, the second is the first to find right ones, and
the fourth gives others. -/
def startUp : List Logging.Call := [
  { request := .getLogger "rest", env := [("LOG_LEVEL", "loud")] },
  { request := .configure none, env := [("log_level", " debug ")] },
  { request := .getLogger "site", env := [("LOG_LEVEL", "loud")] },
  { request := .configure (some objectLines), env := [] },
  { request := .getLogger "rest", env := [("APP_NAME", "other")] }]

/-- What was found at first gives way to what is given. -/
theorem logging_follows_last_settings_startUp :
    (Logging.fresh.run (startUp.take 3)).settings = some { logLevel := .debug } ∧
    (Logging.fresh.run startUp).settings = some objectLines ∧
    (Logging.fresh.run startUp).Follows objectLines := by
  have hfound : Logging.firstFound? (startUp.take 3) = some { logLevel := .debug } := by
    decide +kernel
  obtain ⟨hearly, -⟩ := logging_follows_last_settings (startUp.take 3)
  obtain ⟨hsettings, -, hfollows, -⟩ := logging_follows_last_settings startUp
  exact ⟨hearly.trans hfound, hsettings, hfollows _ hsettings⟩

end Procedoc
