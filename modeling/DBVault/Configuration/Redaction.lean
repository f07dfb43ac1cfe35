import DBVault.Configuration.Schedules

/-! The secrets of a configuration: what a redacted one shows of them, and that none is written
out in production. -/
namespace DBVault.Configuration
open List

def redact (r : SecretReference) : SecretReference := if r.empty then r else { r with literal := "<redacted>" }

def S3DestinationConfig.redacted (s3 : S3DestinationConfig) : S3DestinationConfig :=
  { s3 with
    accessKeyID := redact s3.accessKeyID
    secretAccessKey := redact s3.secretAccessKey
    sessionToken := redact s3.sessionToken }

def DestinationConfig.redacted (d : DestinationConfig) : DestinationConfig :=
  { d with s3 := d.s3.map (·.redacted) }

def DatabaseSourceConfig.redacted (db : DatabaseSourceConfig) : DatabaseSourceConfig :=
  { db with password := redact db.password }

def SourceConfig.redacted (s : SourceConfig) : SourceConfig :=
  { s with postgres := s.postgres.map (·.redacted), mysql := s.mysql.map (·.redacted) }

def LegacyDestination.redacted (d : LegacyDestination) : LegacyDestination :=
  { d with accessKeyID := "<redacted>", secretAccessKey := "<redacted>" }

def Config.redacted (c : Config) : Config :=
  { c with
    destinations := c.destinations.map (·.redacted)
    sources := c.sources.map (·.redacted)
    webhookURL := redact c.webhookURL
    webhookSigningSecret := redact c.webhookSigningSecret
    legacyDestination := c.legacyDestination.redacted }

/-- References that are both empty or differ in their literals only. -/
structure SecretReference.Alike (r r' : SecretReference) : Prop where
  empty : r.empty = r'.empty
  rest : { r' with literal := r.literal } = r

structure S3DestinationConfig.Alike (s3 s3' : S3DestinationConfig) : Prop where
  accessKeyID : s3.accessKeyID.Alike s3'.accessKeyID
  secretAccessKey : s3.secretAccessKey.Alike s3'.secretAccessKey
  sessionToken : s3.sessionToken.Alike s3'.sessionToken
  rest : { s3' with
    accessKeyID := s3.accessKeyID, secretAccessKey := s3.secretAccessKey
    sessionToken := s3.sessionToken } = s3

structure DestinationConfig.Alike (d d' : DestinationConfig) : Prop where
  s3 : Option.Rel S3DestinationConfig.Alike d.s3 d'.s3
  rest : { d' with s3 := d.s3 } = d

structure DatabaseSourceConfig.Alike (db db' : DatabaseSourceConfig) : Prop where
  password : db.password.Alike db'.password
  rest : { db' with password := db.password } = db

structure SourceConfig.Alike (s s' : SourceConfig) : Prop where
  postgres : Option.Rel DatabaseSourceConfig.Alike s.postgres s'.postgres
  mysql : Option.Rel DatabaseSourceConfig.Alike s.mysql s'.mysql
  rest : { s' with postgres := s.postgres, mysql := s.mysql } = s

/-- Configurations that are equal up to the literals of references and the two keys of the
destination of the first version. -/
structure Config.Alike (c c' : Config) : Prop where
  destinations : List.Forall₂ DestinationConfig.Alike c.destinations c'.destinations
  sources : List.Forall₂ SourceConfig.Alike c.sources c'.sources
  webhookURL : c.webhookURL.Alike c'.webhookURL
  webhookSigningSecret : c.webhookSigningSecret.Alike c'.webhookSigningSecret
  rest : { c' with
    destinations := c.destinations, sources := c.sources, webhookURL := c.webhookURL
    webhookSigningSecret := c.webhookSigningSecret
    legacyDestination := { c'.legacyDestination with
      accessKeyID := c.legacyDestination.accessKeyID
      secretAccessKey := c.legacyDestination.secretAccessKey } } = c

variable {r : SecretReference}

theorem redact_eq {r' : SecretReference} (h : r.Alike r') : redact r = redact r' := by
  obtain ⟨hEmpty, hRest⟩ := h
  unfold redact
  rw [← hEmpty]
  split
  · next hNone =>
    have hNone' := hEmpty ▸ hNone
    simp only [SecretReference.empty, decide_eq_true_eq] at hNone hNone'
    rw [hNone, hNone']
  · rw [← hRest]

theorem S3DestinationConfig.redacted_eq {s3 s3' : S3DestinationConfig} (h : s3.Alike s3') :
    s3.redacted = s3'.redacted := by
  unfold S3DestinationConfig.redacted
  rw [redact_eq h.accessKeyID, redact_eq h.secretAccessKey, redact_eq h.sessionToken, ← h.rest]

theorem DatabaseSourceConfig.redacted_eq {db db' : DatabaseSourceConfig} (h : db.Alike db') :
    db.redacted = db'.redacted := by
  unfold DatabaseSourceConfig.redacted
  rw [redact_eq h.password, ← h.rest]

variable {α β : Type} {alike : α → α → Prop} {f : α → β}

theorem map_eq_of_rel {x y : Option α}
    (h : Option.Rel alike x y) (hAlike : ∀ a b, alike a b → f a = f b) : x.map f = y.map f := by
  cases h with
  | none => rfl
  | some h => exact congrArg some (hAlike _ _ h)

theorem map_eq_of_forall₂ {xs ys : List α}
    (h : List.Forall₂ alike xs ys) (hAlike : ∀ a b, alike a b → f a = f b) : xs.map f = ys.map f := by
  induction h with
  | nil => rfl
  | cons hFirst _ ih => rw [map_cons, map_cons, hAlike _ _ hFirst, ih]

theorem DestinationConfig.redacted_eq {d d' : DestinationConfig} (h : d.Alike d') : d.redacted = d'.redacted := by
  have hS3 : d.s3.map (·.redacted) = d'.s3.map (·.redacted) :=
    map_eq_of_rel h.s3 fun _ _ => S3DestinationConfig.redacted_eq
  unfold DestinationConfig.redacted
  rw [hS3, ← h.rest]

theorem SourceConfig.redacted_eq {s s' : SourceConfig} (h : s.Alike s') : s.redacted = s'.redacted := by
  have hPostgres : s.postgres.map (·.redacted) = s'.postgres.map (·.redacted) :=
    map_eq_of_rel h.postgres fun _ _ => DatabaseSourceConfig.redacted_eq
  have hMySQL : s.mysql.map (·.redacted) = s'.mysql.map (·.redacted) :=
    map_eq_of_rel h.mysql fun _ _ => DatabaseSourceConfig.redacted_eq
  unfold SourceConfig.redacted
  rw [hPostgres, hMySQL, ← h.rest]

variable {c : Config}

theorem Config.redacted_eq {c' : Config} (h : c.Alike c') : c.redacted = c'.redacted := by
  have hDestinations : c.destinations.map (·.redacted) = c'.destinations.map (·.redacted) :=
    map_eq_of_forall₂ h.destinations fun _ _ => DestinationConfig.redacted_eq
  have hSources : c.sources.map (·.redacted) = c'.sources.map (·.redacted) :=
    map_eq_of_forall₂ h.sources fun _ _ => SourceConfig.redacted_eq
  have hLegacy : c.legacyDestination.redacted = c'.legacyDestination.redacted := by
    rw [← h.rest]
    rfl
  unfold Config.redacted
  rw [hDestinations, hSources, redact_eq h.webhookURL, redact_eq h.webhookSigningSecret, hLegacy, ← h.rest]

def Config.Holds (c : Config) (r : SecretReference) : Prop :=
  r = c.webhookURL ∨ r = c.webhookSigningSecret ∨
    (∃ d ∈ c.destinations, ∃ s3 ∈ d.s3, r = s3.accessKeyID ∨ r = s3.secretAccessKey ∨ r = s3.sessionToken) ∨
    ∃ s ∈ c.sources, ∃ db, (db ∈ s.postgres ∨ db ∈ s.mysql) ∧ r = db.password

theorem mem_allSecretReferences : r ∈ allSecretReferences c ↔ c.Holds r := by
  simp only [allSecretReferences, Config.Holds, mem_append, mem_cons, not_mem_nil,
    or_false, mem_flatMap, mem_map, Option.mem_toList, or_assoc]
  simp only [Option.mem_def, or_and_right, exists_or, @eq_comm _ _ r]

theorem holds_normalize (lib : Library) (h : c.Holds r) : (c.normalize lib).Holds r := by
  rcases h with hURL | hSigning | ⟨d, hd, s3, hS3, hr⟩ | ⟨s, hs, db, hdb, hr⟩
  · exact .inl hURL
  · exact .inr (.inl hSigning)
  · have hMem : d ∈ c.effectiveDestinations := by
      rwa [Config.effectiveDestinations, if_neg fun hNone => ne_nil_of_mem hd hNone.1]
    refine .inr (.inr (.inl ⟨_, mem_map_of_mem hMem, applyS3Defaults d.profile s3, ?_, hr⟩))
    exact Option.mem_map_of_mem _ hS3
  · have hMem : s ∈ c.effectiveSources := by
      rwa [Config.effectiveSources, if_neg fun hNone => ne_nil_of_mem hs hNone.1]
    rcases hdb with hdb | hdb
    · exact .inr (.inr (.inr ⟨_, mem_map_of_mem hMem, _, .inl (Option.mem_map_of_mem _ hdb), hr⟩))
    · exact .inr (.inr (.inr ⟨_, mem_map_of_mem hMem, _, .inr (Option.mem_map_of_mem _ hdb), hr⟩))

/-- Configurations that differ in secrets only look the same when redacted, and an accepted
configuration in production has no secret written out, neither as it stands nor normalised. -/
theorem secrets_hidden (lib : Library) (c : Config) :
    (∀ c', c.Alike c' → c.redacted = c'.redacted) ∧
    (validate lib c = [] → lib.letters.equalFold c.controlPlaneMode "production" = true →
      ∀ r, c.Holds r ∨ (c.normalize lib).Holds r → r.literal = "") := by
  refine ⟨fun c' h => Config.redacted_eq h, ?_⟩
  intro hValid hMode r hHolds
  simp only [validate, append_eq_nil_iff] at hValid
  obtain ⟨⟨⟨⟨-, hLiterals⟩, -⟩, -⟩, -⟩ := hValid
  rw [reportIf_eq_nil] at hLiterals
  by_contra hLiteral
  have hMem := mem_allSecretReferences.mpr (hHolds.elim (holds_normalize lib) id)
  exact hLiterals ⟨hMode, r, hMem, hLiteral⟩

namespace Sample

def notified (url : String) : Config := { server [] with webhookURL := { literal := url } }

theorem webhook_hidden :
    (notified "https://a").redacted = (notified "https://b").redacted ∧
      validate library { server [] with controlPlaneMode := "Production" } = [] ∧
      ({ server [] with controlPlaneMode := "Production" } : Config).webhookURL.literal = "" ∧
      validate library { notified "https://a" with controlPlaneMode := "Production" } ≠ [] := by
  have hValid : validate library { server [] with controlPlaneMode := "Production" } = [] := by
    decide +kernel
  refine ⟨(secrets_hidden library (notified "https://a")).1 _ ?_, hValid,
    (secrets_hidden library _).2 hValid (by decide +kernel) _ (.inl (.inl rfl)), by decide +kernel⟩
  have hEmpty : ({} : SecretReference).Alike {} := ⟨rfl, rfl⟩
  exact ⟨.cons ⟨.none, rfl⟩ .nil, .cons ⟨.none, .none, rfl⟩ .nil, ⟨rfl, rfl⟩, hEmpty, rfl⟩

end Sample

end DBVault.Configuration
