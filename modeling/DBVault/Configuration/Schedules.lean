import DBVault.Configuration
import DBVault.Scheduler.Meaning

/-! The schedules of an accepted configuration. -/
namespace DBVault.Configuration
open List Scheduling

variable {lib : Library} {c : Config}

@[simp] theorem reportIf_eq_nil {condition : Prop} [Decidable condition] {text : String} :
    reportIf condition text = [] ↔ ¬ condition := by
  unfold reportIf
  split
  · simp [*]
  · simp [*]

theorem normalize_schedules (lib : Library) (c : Config) :
    (c.normalize lib).schedules = c.effectiveSchedules := rfl

theorem schedules_of_validate (hValid : validate lib c = []) :
    ∀ sc ∈ c.effectiveSchedules, sc.id ≠ "" ∧ ¬ (sc.cron = "" ∧ sc.everySeconds ≤ 0) := by
  intro sc hIn
  simp only [validate, append_eq_nil_iff] at hValid
  obtain ⟨⟨⟨⟨⟨-, hSchedules⟩, -⟩, -⟩, -⟩, -⟩ := hValid
  rw [normalize_schedules, flatMap_eq_nil_iff] at hSchedules
  have hSchedule := hSchedules sc hIn
  simp only [validateSchedule, append_eq_nil_iff, reportIf_eq_nil] at hSchedule
  exact ⟨hSchedule.1.1.1, hSchedule.2⟩

def ScheduleConfig.spec (sc : ScheduleConfig) : Schedule :=
  { id := sc.id, sourceID := sc.source, operation := firstNonEmpty sc.operation "logical_backup"
    cron := sc.cron, timezone := sc.timezone, everySeconds := sc.everySeconds }

theorem specOf_eq {sc : ScheduleConfig} (hID : sc.id ≠ "") (hTime : ¬ (sc.cron = "" ∧ sc.everySeconds ≤ 0)) :
    specOf c sc = if sc.isEnabled then some sc.spec else none := by
  cases hEnabled : sc.isEnabled with
  | false => simp [specOf, hEnabled]
  | true => simp only [specOf, hEnabled, hID, hTime, Bool.true_eq_false, and_false, if_false,
      if_true, ScheduleConfig.spec]

def Config.enabledSchedules (c : Config) : List ScheduleConfig := c.effectiveSchedules.filter (·.isEnabled)

theorem specs_eq (hValid : validate lib c = []) :
    specsFromConfig (c.normalize lib) = c.enabledSchedules.map (·.spec) := by
  have hAccepted := schedules_of_validate hValid
  rw [specsFromConfig, normalize_schedules, Config.enabledSchedules]
  generalize c.effectiveSchedules = schedules at hAccepted
  induction schedules with
  | nil => rfl
  | cons sc rest ih =>
    have hRest := ih fun other hOther => hAccepted other (mem_cons_of_mem _ hOther)
    obtain ⟨hID, hTime⟩ := hAccepted sc mem_cons_self
    rw [filterMap_cons, specOf_eq hID hTime, filter_cons]
    cases sc.isEnabled with
    | false => simpa using hRest
    | true => simpa using hRest

/-- One spec for each enabled schedule, with an ID of its own and an expression that can be
parsed. -/
structure Runnable (lex : Lexicon) (enabled : List ScheduleConfig) (specs : List Schedule) : Prop where
  onePerSchedule : specs = enabled.map (·.spec)
  distinct : (specs.map (·.id)).Nodup
  parsed : ∀ spec ∈ specs, spec.cron ≠ "" → ∃ e, parseCron lex spec.cron.toList = .ok e

/-- The schedules of an accepted configuration can be run exactly if no two that are enabled have
one ID and their expressions are well formed. -/
theorem runnable_iff (lib : Library) (lex : Lexicon) (c : Config) (hValid : validate lib c = []) :
    Runnable lex c.enabledSchedules (specsFromConfig (c.normalize lib)) ↔
      (c.enabledSchedules.map (·.id)).Nodup ∧
        ∀ sc ∈ c.enabledSchedules, sc.cron ≠ "" → CronAccepted lex sc.cron.toList := by
  have hIDs : (c.enabledSchedules.map (·.spec)).map (·.id) = c.enabledSchedules.map (·.id) := by
    rw [map_map]
    rfl
  have hParsed : (∀ spec ∈ c.enabledSchedules.map (·.spec), spec.cron ≠ "" →
      ∃ e, parseCron lex spec.cron.toList = .ok e) ↔
        ∀ sc ∈ c.enabledSchedules, sc.cron ≠ "" → CronAccepted lex sc.cron.toList := by
    simp only [forall_mem_map, parseCron_ok_iff]
    rfl
  constructor
  · rintro ⟨-, hDistinct, hAll⟩
    rw [specs_eq hValid] at hDistinct hAll
    exact ⟨hIDs ▸ hDistinct, hParsed.mp hAll⟩
  · rintro ⟨hDistinct, hAll⟩
    refine ⟨specs_eq hValid, ?_, ?_⟩
    · rw [specs_eq hValid, hIDs]
      exact hDistinct
    · rw [specs_eq hValid]
      exact hParsed.mpr hAll

namespace Sample

theorem toLower_toLower (c : Char) : c.toLower.toLower = c.toLower := by
  unfold Char.toLower
  split
  · next hUpper =>
    refine dif_neg fun hAgain => ?_
    obtain ⟨hFirst, hLast⟩ := hUpper
    have hSum := hAgain.2
    simp only [ge_iff_le, UInt32.le_iff_toNat_le, UInt32.toNat_add, UInt32.toNat_sub] at hFirst hLast hSum
    simp at hFirst hLast hSum
    omega
  · rfl

def library : Library where
  letters := .ascii
  quote text := "\"" ++ text ++ "\""
  parseURL _ := none
  durationError _ := none
  bytesError _ := none
  parseBytes _ := 0
  lower_lower := toLower_toLower

def nightly (cron : String) : ScheduleConfig := { id := "nightly", source := "orders", cron := cron }

def server (schedules : List ScheduleConfig) : Config where
  dataDirectory := "./data"
  scratchDirectory := "./data/scratch"
  cataloguePath := "./data/dbvault.sqlite"
  secretProviders := [⟨"local-files", "file", some { root := "./data/keys" }⟩]
  destinations := [{ id := "filesystem", driver := "filesystem", filesystem := some ⟨"./repository"⟩ }]
  repositories :=
    [{ id := "repo_local", mode := "single", primary := some "filesystem"
       encryptionKeyProvider := "local-files", encryptionActiveKey := "local-key" }]
  sources :=
    [{ id := "orders", engine := "sqlite", repository := "repo_local"
       sqlite := some "/var/lib/orders.sqlite" }]
  schedules := schedules

/-- Two schedules with one ID are accepted. -/
theorem shared_id_accepted :
    validate library (server [nightly "0 2 * * *", nightly "0 14 * * *"]) = [] ∧
      ¬ Runnable Scheduling.Sample.lexicon
        (server [nightly "0 2 * * *", nightly "0 14 * * *"]).enabledSchedules
        (specsFromConfig ((server [nightly "0 2 * * *", nightly "0 14 * * *"]).normalize library)) := by
  refine ⟨by decide +kernel, fun hRunnable => ?_⟩
  exact absurd hRunnable.distinct (by decide +kernel)

theorem nightly_runnable :
    Runnable Scheduling.Sample.lexicon (server [nightly "0 2 * * *"]).enabledSchedules
      (specsFromConfig ((server [nightly "0 2 * * *"]).normalize library)) := by
  refine (runnable_iff library _ _ (by decide +kernel)).mpr ⟨by decide +kernel, ?_⟩
  intro sc hIn _
  obtain rfl : sc = nightly "0 2 * * *" := mem_singleton.mp hIn
  exact parseCron_ok_iff.mp ⟨⟨[0], [2], none, [1, 2, 3, 4, 5, 6, 7, 8, 9, 10, 11, 12], none⟩,
    eq_ok_of_toOption (by decide +kernel)⟩

end Sample

end DBVault.Configuration
