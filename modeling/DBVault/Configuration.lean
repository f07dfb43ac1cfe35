import DBVault.Scheduler
import DBVault.Text.Path
import DBVault.Text.Words
import Mathlib.Data.List.Infix

/-! The configuration of a server: what is filled in, what is checked, and the schedules that come
out of it. -/
namespace DBVault.Configuration
open Text Scheduling

structure SecretReference where
  (provider key env file literal : String := "")
  deriving DecidableEq

structure FileSecretProvider where
  root : String
  rejectSymlinks : Bool := false
  requireMode : String := ""
  deriving DecidableEq

structure SecretProviderConfig where
  (id driver : String)
  file : Option FileSecretProvider
  deriving DecidableEq

structure S3DestinationConfig where
  (endpoint bucket : String)
  pathPrefix : String := ""
  allowInsecureHTTP : Bool := false
  (accessKeyID secretAccessKey sessionToken : SecretReference := {})
  region : String := ""
  pathStyle : Bool := false
  maximumAttempts : Int := 0
  (requestTimeout multipartThreshold multipartPartSize : String := "")
  multipartConcurrency : Int := 0
  deriving DecidableEq

structure FilesystemDestinationConfig where
  root : String
  deriving DecidableEq

structure DestinationConfig where
  (id driver : String)
  s3 : Option S3DestinationConfig := none
  filesystem : Option FilesystemDestinationConfig := none
  profile : String := ""
  deriving DecidableEq

structure RepositoryReplica where
  destination : String
  requiredWithin : String := ""
  deriving DecidableEq

structure ChunkStrategyConfig where
  (strategy targetSize : String := "")
  deriving DecidableEq

structure RepositoryConfig where
  id : String
  mode : String := ""
  primary : Option String := none
  mirrors : List String := []
  replicas : List RepositoryReplica := []
  (encryptionKeyProvider encryptionActiveKey signingKeyProvider : String := "")
  minimumVerifiedSnapshots : Int := 0
  (tombstoneGrace maximumPhysicalBytes signingKeyID compressionAlgorithm : String := "")
  (compressionLevel minimumSavingsPercent : Int := 0)
  (chunkingSQLite chunkingStreams : ChunkStrategyConfig := {})
  (keepLast daily weekly monthly : Int := 0)
  gcSweepInterval : String := ""
  reservePercent : Int := 0
  deriving DecidableEq

/-- The sections `postgres` and `mysql` of a source. -/
structure DatabaseSourceConfig where
  (host database username : String)
  password : SecretReference
  port : Int := 0
  deriving DecidableEq

structure SourceConfig where
  (id engine repository : String)
  /-- The path of the section `sqlite`. -/
  sqlite : Option String := none
  (postgres mysql : Option DatabaseSourceConfig := none)
  enabled : Option Bool := none
  deriving DecidableEq

structure ScheduleConfig where
  (id source : String)
  (operation cron timezone : String := "")
  enabled : Option Bool := none
  everySeconds : Int := 0
  deriving DecidableEq

structure LegacySource where
  (id driver path name : String := "")
  enabled : Bool := false
  deriving DecidableEq

structure LegacyRepository where
  (id keyID tombstoneGrace : String := "")
  budgetBytes : Int := 0
  name : String := ""
  (chunkBytes keepLast daily weekly monthly : Int := 0)
  gcSweepInterval : String := ""
  deriving DecidableEq

structure LegacyDestination where
  (id driver path endpoint bucket pathPrefix accessKeyID secretAccessKey accessKeyIDFile
    secretAccessKeyFile accessKeyIDEnv secretAccessKeyEnv profile region : String := "")
  usePathStyle : Bool := false
  deriving DecidableEq

structure LegacySchedule where
  (cron timezone : String := "")
  enabled : Bool := false
  (everySeconds workers : Int := 0)
  deriving DecidableEq

structure Config where
  version : Int := 0
  (dataDirectory scratchDirectory : String)
  (shutdownGrace catalogueDriver : String := "")
  cataloguePath : String
  secretProviders : List SecretProviderConfig := []
  destinations : List DestinationConfig := []
  repositories : List RepositoryConfig := []
  sources : List SourceConfig := []
  schedules : List ScheduleConfig := []
  (webhookURL webhookSigningSecret : SecretReference := {})
  (controlPlaneMode listen apiListen logSpoolDirectory : String := "")
  legacySource : LegacySource := {}
  legacyRepository : LegacyRepository := {}
  legacyDestination : LegacyDestination := {}
  keysDirectory : String := ""
  legacySchedule : LegacySchedule := {}
  deriving DecidableEq

structure ParsedURL where
  (scheme host : String)
  hasUser : Bool
  rawQuery : String

/-- What Go's library makes of texts. The parsers of durations and sizes answer with the text of
their error. -/
structure Library where
  letters : CaseMapping
  quote : String → String
  parseURL : String → Option ParsedURL
  (durationError bytesError : String → Option String)
  /-- The number `ParseBytes` returns, also beside an error. -/
  parseBytes : String → Int
  /-- Lower case has no lower case of its own. -/
  lower_lower : ∀ c, letters.lower (letters.lower c) = letters.lower c

def currentVersion : Int := 7

def legacySecret (literal file env : String) : SecretReference :=
  if file ≠ "" then { file := file } else if env ≠ "" then { env := env } else { literal := literal }

def firstNonEmpty (v fallback : String) : String := if v ≠ "" then v else fallback

def orDefault (n fallback : Int) : Int := if n = 0 then fallback else n

def bytesString (v : Int) : String := if v ≤ 0 then "4MiB" else decimal v

def profileRegion (profile : String) : Option String :=
  if profile = "cloudflare-r2" then some "auto"
  else if profile = "contabo" then some "default"
  else if profile = "minio" then some "us-east-1"
  else none

def applyS3Defaults (profile : String) (s3 : S3DestinationConfig) : S3DestinationConfig :=
  { s3 with
    region := firstNonEmpty s3.region ((profileRegion profile).getD "")
    pathStyle := s3.pathStyle || profile = "contabo" || profile = "minio"
    maximumAttempts := orDefault s3.maximumAttempts 5
    requestTimeout := firstNonEmpty s3.requestTimeout "2m"
    multipartThreshold := firstNonEmpty s3.multipartThreshold "16MiB"
    multipartPartSize := firstNonEmpty s3.multipartPartSize "16MiB"
    multipartConcurrency := orDefault s3.multipartConcurrency 4 }

def applyDestinationDefaults (d : DestinationConfig) : DestinationConfig :=
  { d with
    driver := firstNonEmpty d.driver "filesystem"
    s3 := d.s3.map (applyS3Defaults d.profile) }

def defaultChunking (strategy targetSize : String) (chunking : ChunkStrategyConfig) :
    ChunkStrategyConfig :=
  if chunking.targetSize = "" then ⟨strategy, targetSize⟩ else chunking

def applyRepositoryDefaults (r : RepositoryConfig) : RepositoryConfig :=
  { r with
    mode := firstNonEmpty r.mode "single"
    minimumVerifiedSnapshots := if r.minimumVerifiedSnapshots = 0 then 2 else r.minimumVerifiedSnapshots
    tombstoneGrace := firstNonEmpty r.tombstoneGrace "168h"
    compressionAlgorithm := firstNonEmpty r.compressionAlgorithm "zstd"
    compressionLevel := orDefault r.compressionLevel 6
    minimumSavingsPercent := orDefault r.minimumSavingsPercent 5
    chunkingSQLite := defaultChunking "page-aligned" "4MiB" r.chunkingSQLite
    chunkingStreams := defaultChunking "fixed-stream-v1" "8MiB" r.chunkingStreams
    reservePercent := orDefault r.reservePercent 15 }

def defaultPort (port : Int) (db : DatabaseSourceConfig) : DatabaseSourceConfig :=
  { db with port := orDefault db.port port }

def applySourceDefaults (lib : Library) (s : SourceConfig) : SourceConfig :=
  { s with
    engine := lib.letters.toLower s.engine
    postgres := s.postgres.map (defaultPort 5432)
    mysql := s.mysql.map (defaultPort 3306) }

def LegacyDestination.config (d : LegacyDestination) : DestinationConfig :=
  if d.driver = "" ∨ d.driver = "filesystem" then
    { id := d.id, driver := "filesystem", filesystem := some ⟨d.path⟩, profile := d.profile }
  else if d.driver = "s3" then
    { id := d.id, driver := d.driver, profile := d.profile
      s3 := some
        { endpoint := d.endpoint, bucket := d.bucket, pathPrefix := d.pathPrefix
          region := d.region, pathStyle := d.usePathStyle
          accessKeyID := legacySecret d.accessKeyID d.accessKeyIDFile d.accessKeyIDEnv
          secretAccessKey := legacySecret d.secretAccessKey d.secretAccessKeyFile d.secretAccessKeyEnv } }
  else { id := d.id, driver := d.driver, profile := d.profile }

def legacyScheduleID : String := "legacy-schedule"

namespace Config
variable (c : Config)

def effectiveProviders : List SecretProviderConfig :=
  if c.secretProviders = [] ∧ c.keysDirectory ≠ "" then
    [⟨"local-files", "file", some { root := c.keysDirectory, rejectSymlinks := true, requireMode := "0600" }⟩]
  else c.secretProviders

def effectiveDestinations : List DestinationConfig :=
  if c.destinations = [] ∧ c.legacyDestination.id ≠ "" then [c.legacyDestination.config]
  else c.destinations

def effectiveRepositories : List RepositoryConfig :=
  if c.repositories = [] ∧ c.legacyRepository.id ≠ "" then
    [{ id := c.legacyRepository.id, mode := "single", primary := some c.legacyDestination.id
       encryptionKeyProvider := "local-files", encryptionActiveKey := c.legacyRepository.keyID
       signingKeyProvider := "local-files", signingKeyID := "signing-local"
       compressionAlgorithm := "zstd", compressionLevel := 6, minimumSavingsPercent := 5
       chunkingSQLite := ⟨"page-aligned", bytesString c.legacyRepository.chunkBytes⟩
       keepLast := c.legacyRepository.keepLast, daily := c.legacyRepository.daily
       weekly := c.legacyRepository.weekly, monthly := c.legacyRepository.monthly
       minimumVerifiedSnapshots := 2, tombstoneGrace := c.legacyRepository.tombstoneGrace
       gcSweepInterval := c.legacyRepository.gcSweepInterval, reservePercent := 15
       maximumPhysicalBytes :=
        if c.legacyRepository.budgetBytes > 0 then decimal c.legacyRepository.budgetBytes else "" }]
  else c.repositories

def effectiveSources : List SourceConfig :=
  if c.sources = [] ∧ c.legacySource.id ≠ "" then
    [{ id := c.legacySource.id, engine := firstNonEmpty c.legacySource.driver "sqlite"
       repository := c.legacyRepository.id, enabled := some c.legacySource.enabled
       sqlite := some c.legacySource.path }]
  else c.sources

/-- The schedules, or the one of the first version. Its interval is not taken over. -/
def effectiveSchedules : List ScheduleConfig :=
  if c.schedules = [] ∧ c.legacySchedule.enabled then
    [{ id := legacyScheduleID, source := c.legacySource.id, operation := "logical_backup"
       cron := c.legacySchedule.cron, timezone := c.legacySchedule.timezone, enabled := some true }]
  else c.schedules

/-- What `syncLegacy` makes of the first source. -/
def syncedSource : LegacySource :=
  match c.sources with
  | [] => c.legacySource
  | s :: _ =>
    { id := s.id, name := s.id, driver := s.engine, enabled := s.enabled.getD true
      path := s.sqlite.getD "" }

def syncedRepository (lib : Library) : LegacyRepository :=
  match c.repositories with
  | [] => c.legacyRepository
  | r :: _ =>
    { id := r.id, name := r.id, chunkBytes := lib.parseBytes r.chunkingSQLite.targetSize
      keyID := r.encryptionActiveKey, keepLast := r.keepLast, daily := r.daily, weekly := r.weekly
      monthly := r.monthly, tombstoneGrace := r.tombstoneGrace
      gcSweepInterval := r.gcSweepInterval, budgetBytes := lib.parseBytes r.maximumPhysicalBytes }

def syncedDestination : LegacyDestination :=
  match c.destinations with
  | [] => c.legacyDestination
  | d :: _ =>
    let path := (d.filesystem.map (·.root)).getD ""
    match d.s3 with
    | none => { id := d.id, driver := d.driver, profile := d.profile, path := path }
    | some s3 =>
      { id := d.id, driver := d.driver, profile := d.profile, path := path
        endpoint := s3.endpoint, region := s3.region, bucket := s3.bucket
        pathPrefix := s3.pathPrefix, usePathStyle := s3.pathStyle
        accessKeyID := s3.accessKeyID.literal, accessKeyIDFile := s3.accessKeyID.file
        accessKeyIDEnv := s3.accessKeyID.env, secretAccessKey := s3.secretAccessKey.literal
        secretAccessKeyFile := s3.secretAccessKey.file
        secretAccessKeyEnv := s3.secretAccessKey.env }

def syncedKeys : String :=
  if c.keysDirectory = "" then
    (c.secretProviders.findSome? fun p => if p.driver = "file" then p.file.map (·.root) else none).getD ""
  else c.keysDirectory

def syncedSchedule : LegacySchedule :=
  match c.schedules with
  | [] => c.legacySchedule
  | s :: _ => { cron := s.cron, timezone := s.timezone, enabled := s.enabled.getD true }

def syncLegacy (lib : Library) : Config :=
  { c with
    legacySource := c.syncedSource, legacyRepository := c.syncedRepository lib
    legacyDestination := c.syncedDestination, keysDirectory := c.syncedKeys
    legacySchedule := c.syncedSchedule }

/-- The address of the server and of its API, each with the other's if it has none. -/
def listenAddresses : String × String :=
  let listen := firstNonEmpty c.listen c.apiListen
  let apiListen := firstNonEmpty (firstNonEmpty c.apiListen listen) "127.0.0.1:8080"
  (firstNonEmpty listen apiListen, apiListen)

/-- The directory of the log spool, `filepath.Join(dataDirectory, "log-spool")` if none is set. -/
def effectiveLogSpool : String :=
  if c.logSpoolDirectory = "" ∧ c.dataDirectory ≠ "" then
    String.ofList (Path.clean (c.dataDirectory.toList ++ "/log-spool".toList))
  else c.logSpoolDirectory

def normalize (lib : Library) : Config :=
  Config.syncLegacy
    { c with
      version := if c.version = 0 then currentVersion else c.version
      listen := c.listenAddresses.1
      apiListen := c.listenAddresses.2
      logSpoolDirectory := c.effectiveLogSpool
      shutdownGrace := firstNonEmpty c.shutdownGrace "30s"
      catalogueDriver := firstNonEmpty c.catalogueDriver "sqlite"
      secretProviders := c.effectiveProviders
      destinations := c.effectiveDestinations.map applyDestinationDefaults
      repositories := c.effectiveRepositories.map applyRepositoryDefaults
      sources := c.effectiveSources.map (applySourceDefaults lib)
      schedules := c.effectiveSchedules } lib

end Config

variable (lib : Library)

def reportIf (condition : Prop) [Decidable condition] (text : String) : List String :=
  if condition then [text] else []

def reportError (about : String) (error : Option String) : List String :=
  error.toList.map fun text => about ++ ": " ++ text

def SecretReference.empty (r : SecretReference) : Bool := r = {}

def validateSecretRef (name : String) (r : SecretReference) (providers : List String)
    (required : Bool) : List String :=
  if r.empty then reportIf required (name ++ " is required")
  else if (r.provider ≠ "" ∨ r.key ≠ "") ∧ (r.provider = "" ∨ r.key = "") then
    [name ++ " provider and key must be specified together"]
  else if r.provider ≠ "" ∧ r.provider ∉ providers then
    [name ++ " references unknown provider " ++ lib.quote r.provider]
  else
    let set : List Bool := [r.provider ≠ "" ∨ r.key ≠ "", r.env ≠ "", r.file ≠ "", r.literal ≠ ""]
    reportIf (set.count true ≠ 1) (name ++ " must use exactly one secret source")

/-- `validatePrefix`, with the text of the error. -/
def prefixError (pathPrefix : String) : Option String :=
  if pathPrefix = "" then none
  else if pathPrefix.toList.head? = some '/' ∨ '\\' ∈ pathPrefix.toList ∨
      ['.', '.'] <:+: pathPrefix.toList then some "unsafe path"
  else if [] ∈ pathPrefix.toList.splitOn '/' then some "empty path component"
  else none

def validateEndpoint (d : DestinationConfig) (s3 : S3DestinationConfig) : List String :=
  let invalid := ["destination " ++ d.id ++ " has invalid s3 endpoint"]
  match lib.parseURL s3.endpoint with
  | none => invalid
  | some u =>
    if u.scheme = "" ∨ u.host = "" ∨ u.hasUser ∨ u.rawQuery ≠ "" then invalid
    else reportIf (u.scheme ≠ "https" ∧ s3.allowInsecureHTTP = false)
      ("destination " ++ d.id ++ " requires HTTPS unless allow_insecure_http is true")

def validateDestination (providers : List String) (d : DestinationConfig) : List String :=
  if d.driver = "filesystem" then
    reportIf (d.filesystem.all (·.root = "")) ("destination " ++ d.id ++ " filesystem.root is required")
  else if d.driver = "s3" then
    match d.s3 with
    | none => ["destination " ++ d.id ++ " s3 config is required"]
    | some s3 =>
      reportIf (s3.endpoint = "" ∨ s3.bucket = "")
          ("destination " ++ d.id ++ " s3 endpoint and bucket are required") ++
        validateEndpoint lib d s3 ++
        reportError ("destination " ++ d.id ++ " prefix") (prefixError s3.pathPrefix) ++
        validateSecretRef lib ("destination " ++ d.id ++ " access key") s3.accessKeyID providers true ++
        validateSecretRef lib ("destination " ++ d.id ++ " secret key") s3.secretAccessKey providers true
  else ["destination " ++ d.id ++ " uses unsupported driver " ++ lib.quote d.driver]

def validateRepository (destinations providers : List String) (r : RepositoryConfig) : List String :=
  let about := "repository " ++ r.id ++ " "
  let refs := r.primary.toList ++ r.mirrors ++ r.replicas.map (·.destination)
  (r.replicas.flatMap fun rp =>
      if rp.requiredWithin ≠ "" then
        reportError (about ++ "replica " ++ rp.destination ++ " required_within")
          (lib.durationError rp.requiredWithin)
      else []) ++
    reportIf (refs = []) (about ++ "has no destinations") ++
    (refs.flatMap fun id =>
      reportIf (id ∉ destinations) (about ++ "references unknown destination " ++ lib.quote id)) ++
    reportIf (r.mode ∉ ["single", "mirror", "primary_replica"])
      (about ++ "has invalid mode " ++ lib.quote r.mode) ++
    reportIf ((r.mode = "single" ∨ r.mode = "primary_replica") ∧ r.primary.all (· = ""))
      (about ++ "requires primary.destination") ++
    reportIf (r.mode = "mirror" ∧ r.mirrors.length < 2)
      (about ++ "mirror mode requires at least two mirrors") ++
    reportIf (r.encryptionActiveKey = "") (about ++ "encryption.active_key is required") ++
    reportIf (r.encryptionKeyProvider ≠ "" ∧ r.encryptionKeyProvider ∉ providers)
      (about ++ "references unknown encryption key provider " ++ lib.quote r.encryptionKeyProvider) ++
    reportIf (r.signingKeyProvider ≠ "" ∧ r.signingKeyProvider ∉ providers)
      (about ++ "references unknown signing key provider " ++ lib.quote r.signingKeyProvider) ++
    reportIf (r.minimumVerifiedSnapshots < 2) (about ++ "minimum_verified_snapshots must be at least 2") ++
    (if r.tombstoneGrace ≠ "" then
      reportError (about ++ "tombstone_grace") (lib.durationError r.tombstoneGrace) else []) ++
    (if r.maximumPhysicalBytes ≠ "" then
      reportError (about ++ "maximum_physical_bytes") (lib.bytesError r.maximumPhysicalBytes) else [])

/-- What is checked of a database the source connects to. -/
def validateDatabase (id engine : String) (providers : List String) :
    Option DatabaseSourceConfig → List String
  | none => ["source " ++ id ++ " " ++ engine ++ " config is required"]
  | some db =>
    reportIf (db.host = "" ∨ db.database = "" ∨ db.username = "")
        ("source " ++ id ++ " " ++ engine ++ " host, database and username are required") ++
      validateSecretRef lib ("source " ++ id ++ " " ++ engine ++ " password") db.password providers true

def validateSource (providers : List String) (s : SourceConfig) : List String :=
  if s.engine = "sqlite" then
    if s.sqlite.all (· = "") then ["source " ++ s.id ++ " sqlite.path is required"]
    else reportIf (s.sqlite.all (·.toList.head? ≠ some '/'))
      ("source " ++ s.id ++ " sqlite.path must be absolute")
  else if s.engine = "postgres" then validateDatabase lib s.id "postgres" providers s.postgres
  else if s.engine = "mysql" ∨ s.engine = "mariadb" then
    validateDatabase lib s.id "mysql" providers s.mysql
  else ["source " ++ s.id ++ " uses unsupported engine " ++ lib.quote s.engine]

def uniqueID (kind id : String) (existing : List String) : Option String :=
  if id = "" then some (kind ++ " id is required")
  else if id ∈ existing then some ("duplicate " ++ kind ++ " id " ++ lib.quote id)
  else none

def checkAll {α : Type} (kind : String) (idOf : α → String) (check : α → List String) (items : List α) :
    List String × List String :=
  items.foldl (fun (ids, errs) item =>
    match uniqueID lib kind (idOf item) ids with
    | some err => (ids, errs ++ [err])
    | none => (ids ++ [idOf item], errs ++ check item)) ([], [])

def validateProvider (p : SecretProviderConfig) : List String :=
  reportIf (p.driver ≠ "file")
      ("secret provider " ++ p.id ++ ": unsupported driver " ++ lib.quote p.driver) ++
    reportIf (p.driver = "file" ∧ p.file.all (·.root = ""))
      ("secret provider " ++ p.id ++ ": file.root is required")

/-- A schedule has to have an ID, a source, an operation and a time. That no other schedule has
the ID and that its expression can be parsed is not checked. -/
def validateSchedule (sources : List String) (s : ScheduleConfig) : List String :=
  reportIf (s.id = "") "schedule id is required" ++
    reportIf (s.source ∉ sources)
      ("schedule " ++ s.id ++ " references unknown source " ++ lib.quote s.source) ++
    reportIf (s.operation ∉ ["", "logical_backup", "warehouse_sync"])
      ("schedule " ++ s.id ++ " has unsupported operation " ++ lib.quote s.operation ++
        " (supported: logical_backup, warehouse_sync)") ++
    reportIf (s.cron = "" ∧ s.everySeconds ≤ 0) ("schedule " ++ s.id ++ " requires cron or every_seconds")

def allSecretReferences (c : Config) : List SecretReference :=
  [c.webhookURL, c.webhookSigningSecret] ++
    (c.destinations.flatMap fun d => d.s3.toList.flatMap fun s3 =>
      [s3.accessKeyID, s3.secretAccessKey, s3.sessionToken]) ++
    (c.sources.flatMap fun s => s.postgres.toList.map (·.password) ++ s.mysql.toList.map (·.password))

/-- `Validate`: the texts of the errors. Those of the three paths come in any order. -/
def validate (c : Config) : List String :=
  let c := c.normalize lib
  let providers := checkAll lib "secret provider" (·.id) (validateProvider lib) c.secretProviders
  let destinations := checkAll lib "destination" (·.id) (validateDestination lib providers.1) c.destinations
  let repositories := checkAll lib "repository" (·.id)
    (validateRepository lib destinations.1 providers.1) c.repositories
  let sources := checkAll lib "source" (·.id) (fun s =>
    reportIf (s.repository ∉ repositories.1)
        ("source " ++ s.id ++ " references unknown repository " ++ lib.quote s.repository) ++
      validateSource lib providers.1 s) c.sources
  reportIf (c.version < 1 ∨ c.version > currentVersion)
      ("unsupported config version " ++ toString c.version) ++
    ([("server.data_directory", c.dataDirectory), ("server.scratch_directory", c.scratchDirectory),
        ("catalogue.path", c.cataloguePath)].flatMap fun (name, p) =>
      reportIf (trimSpace p = "") (name ++ " is required")) ++
    reportIf (c.catalogueDriver ≠ "" ∧ c.catalogueDriver ≠ "sqlite")
      ("catalogue.driver " ++ lib.quote c.catalogueDriver ++ " is unsupported") ++
    (if c.shutdownGrace ≠ "" then
      reportError "server.shutdown_grace" (lib.durationError c.shutdownGrace) else []) ++
    providers.2 ++ destinations.2 ++ repositories.2 ++ sources.2 ++
    (c.schedules.flatMap (validateSchedule lib sources.1)) ++
    reportIf (lib.letters.equalFold c.controlPlaneMode "production" ∧
        ∃ r ∈ allSecretReferences c, r.literal ≠ "")
      "literal secrets are disabled in production mode" ++
    reportIf (c.sources = []) "at least one source is required" ++
    reportIf (c.repositories = []) "at least one repository is required" ++
    reportIf (c.destinations = []) "at least one destination is required"

def ScheduleConfig.isEnabled (sc : ScheduleConfig) : Bool := sc.enabled.getD true

/-- What becomes of one schedule. -/
def specOf (c : Config) (sc : ScheduleConfig) : Option Schedule :=
  if sc.isEnabled = false then none
  else
    let id := if sc.id = "" then sc.source ++ "-" ++ sc.operation else sc.id
    let everySeconds :=
      if id = legacyScheduleID ∧ sc.cron = "" ∧ sc.everySeconds ≤ 0 then c.legacySchedule.everySeconds
      else sc.everySeconds
    if sc.cron = "" ∧ everySeconds ≤ 0 then none
    else some
      { id := id, sourceID := sc.source, operation := firstNonEmpty sc.operation "logical_backup"
        cron := sc.cron, timezone := sc.timezone, everySeconds := everySeconds }

def specsFromConfig (c : Config) : List Schedule := c.schedules.filterMap (specOf c)

end DBVault.Configuration
