import DBVault.RecoveryWindow

/-! Plans for recovering a source at an instant, as the planners of the two engines make them
from the base backups and transaction logs they are given. -/
namespace DBVault.RecoveryWindow
open List

structure RecoveryTarget where
  type : String
  timestamp : Option Time
  action : String := ""
  deriving DecidableEq

structure PITRPlan where
  (id sourceID engine : String)
  baseBackups : List String := []
  logs : List String
  target : RecoveryTarget
  (createdAt expiresAt : Time)
  metadata : List (String × String) := []
  deriving DecidableEq

def plannedLogs (logs : List TransactionLog) : List String :=
  logs.foldl (fun ids log => if log.status = .verified then ids ++ [log.id] else ids) []

def Postgres.planTimestamp (now : Time) (source : String) (target : Time)
    (backups : List PhysicalBackupSet) (logs : List TransactionLog) : Result PITRPlan :=
  match backups with
  | [] => .error (newError .recoveryWindowUnavailable "no PostgreSQL physical base backup")
  | backup :: _ => .ok
    { id := "pgpitr_" ++ now.compact
      sourceID := source
      engine := "postgres"
      baseBackups := [backup.id]
      logs := plannedLogs logs
      target := { type := "timestamp", timestamp := some target, action := "promote" }
      createdAt := now
      expiresAt := now + Time.hour }

def MySQL.planTimestamp (engine : String) (now : Time) (source : String) (target : Time)
    (base : String) (logs : List TransactionLog) : Result PITRPlan :=
  .ok
    { id := "mysqlpitr_" ++ now.compact
      sourceID := source
      engine := if engine = "" then "mysql" else engine
      logs := plannedLogs logs
      target := { type := "timestamp", timestamp := some target }
      createdAt := now
      expiresAt := now + Time.hour
      metadata := [("base_snapshot", base)] }

/-- The backup was completed by the target, and none was completed after it and by the target. -/
def LastBefore (target : Time) (backups : List PhysicalBackupSet) (base : PhysicalBackupSet) : Prop :=
  base ∈ backups ∧ base.completedAt ≤ target ∧
    ∀ other ∈ backups, base.completedAt < other.completedAt → target < other.completedAt

namespace PITRPlan

def Based (plan : PITRPlan) (target : Time) (backups : List PhysicalBackupSet) : Prop :=
  ∃ base, LastBefore target backups base ∧ plan.baseBackups = [base.id]

def Unbroken (plan : PITRPlan) (logs : List TransactionLog) : Prop :=
  logs.Pairwise fun earlier later => later.id ∈ plan.logs → earlier.status = .verified

end PITRPlan

variable {logs : List TransactionLog}

theorem mem_plannedLogs {id : String} :
    id ∈ plannedLogs logs ↔ ∃ log ∈ logs, log.status = .verified ∧ log.id = id := by
  have hLoop : ∀ ids : List String,
      id ∈ logs.foldl (fun ids log => if log.status = .verified then ids ++ [log.id] else ids) ids ↔
        id ∈ ids ∨ ∃ log ∈ logs, log.status = .verified ∧ log.id = id := by
    induction logs with
    | nil => simp
    | cons log rest ih =>
      intro ids
      rw [foldl_cons, ih]
      by_cases hVerified : log.status = .verified
      · simp [hVerified, or_assoc, eq_comm]
      · simp [hVerified]
  unfold plannedLogs
  simpa using hLoop []

theorem pairwise_iff_dropWhile {α : Type} {p q : α → Prop} [DecidablePred p] {xs : List α} :
    xs.Pairwise (fun earlier later => q later → p earlier) ↔ ∀ x ∈ (xs.dropWhile (p ·)).tail, ¬ q x := by
  induction xs with
  | nil => simp
  | cons x xs ih =>
    rw [pairwise_cons, ih]
    by_cases hx : p x
    · simp [hx]
    · have hSub : ∀ y ∈ (xs.dropWhile (p ·)).tail, y ∈ xs := fun y hy =>
        (dropWhile_sublist _).subset ((tail_sublist _).subset hy)
      simp only [hx, imp_false, dropWhile_cons, decide_false, if_false, tail_cons,
        Bool.false_eq_true, and_iff_left_iff_imp]
      exact fun hNone y hy => hNone y (hSub y hy)

def VerifiedFirst (logs : List TransactionLog) : Prop :=
  ∀ later ∈ (logs.dropWhile (·.status = .verified)).tail,
    ∀ log ∈ logs, log.status = .verified → log.id ≠ later.id

theorem unbroken_iff {plan : PITRPlan}
    (hLogs : plan.logs = plannedLogs logs) : plan.Unbroken logs ↔ VerifiedFirst logs := by
  unfold PITRPlan.Unbroken VerifiedFirst
  rw [hLogs, pairwise_iff_dropWhile]
  simp only [mem_plannedLogs, not_exists, not_and]

/-- Exactly when the plans start from the right backup and have no hole. The planner of
PostgreSQL takes the backup that is listed first, whatever the target is, and both leave out
logs that are not verified without looking at what comes after them. -/
theorem plans_complete_iff (engine : String) (now : Time) (source : String) (target : Time)
    (snapshot : String) (backups : List PhysicalBackupSet) (logs : List TransactionLog) :
    ((∀ plan, Postgres.planTimestamp now source target backups logs = .ok plan →
        plan.Based target backups ∧ plan.Unbroken logs) ∧
      ∀ plan, MySQL.planTimestamp engine now source target snapshot logs = .ok plan → plan.Unbroken logs) ↔
    (∀ listed, backups.head? = some listed →
      ∃ base, LastBefore target backups base ∧ base.id = listed.id) ∧ VerifiedFirst logs := by
  have hMySQL : (∀ plan, MySQL.planTimestamp engine now source target snapshot logs = .ok plan →
      plan.Unbroken logs) ↔ VerifiedFirst logs := by
    simp only [MySQL.planTimestamp, Except.ok.injEq, forall_eq']
    exact unbroken_iff rfl
  rw [hMySQL]
  apply and_congr_left
  intro hLogs
  cases backups with
  | nil => simp [Postgres.planTimestamp]
  | cons listed others =>
    simp only [Postgres.planTimestamp, Except.ok.injEq, forall_eq', head?_cons, Option.some.injEq]
    rw [unbroken_iff rfl, and_iff_left hLogs]
    simp [PITRPlan.Based, eq_comm]

namespace Sample

def lateBackup : PhysicalBackupSet where
  id := "late"
  startedAt := 250
  completedAt := 300

def broken : List TransactionLog :=
  [log "a" "0/100" "0/200" 100 200 .verified, log "b" "0/200" "0/300" 200 300 .corrupted,
   log "c" "0/300" "0/400" 300 400 .verified]

/-- The plan starts from a backup that was completed after the target and both leave a hole. -/
theorem late_base_and_hole :
    (∃ plan, Postgres.planTimestamp 0 "orders" 200 [lateBackup, base] broken = .ok plan ∧
      ¬ plan.Based 200 [lateBackup, base] ∧ ¬ plan.Unbroken broken) ∧
    ∃ plan, MySQL.planTimestamp "" 0 "orders" 200 "snap" broken = .ok plan ∧ ¬ plan.Unbroken broken := by
  have hHole : ¬ VerifiedFirst broken := by
    intro hFirst
    exact hFirst (log "c" "0/300" "0/400" 300 400 .verified) (by decide)
      (log "c" "0/300" "0/400" 300 400 .verified) (by decide) (by decide) rfl
  refine ⟨⟨_, rfl, ?_, fun hUnbroken => hHole ((unbroken_iff rfl).mp hUnbroken)⟩,
    ⟨_, rfl, fun hUnbroken => hHole ((unbroken_iff rfl).mp hUnbroken)⟩⟩
  rintro ⟨start, ⟨hListed, hBefore, -⟩, hName⟩
  simp only [mem_cons, not_mem_nil, or_false] at hListed
  rcases hListed with rfl | rfl
  · exact absurd hBefore (by decide)
  · exact absurd hName (by decide)

end Sample

end DBVault.RecoveryWindow
