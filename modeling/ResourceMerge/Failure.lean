import ResourceMerge.Error

/-! Failures of a whole run: an error, a refusal of the file system or a missing input, together
    with what the run was doing at the time, from the outside in. The wording puts all of this in
    one line. An error that already words the refusal behind it is followed by that refusal once
    more. -/

namespace ResourceMerge

/-- What a run was doing. -/
inductive Activity where
  | reading (path : String)
  | searching (root : String)
  | decoding (path : String)
  | decodingInitializer (path : String)
  | merging
  | building
  | writing (directory : String)
  | loadingSettings
  deriving DecidableEq

/-- The wording of an activity. -/
def Activity.text : Activity → String
  | .reading path => "lecture " ++ path
  | .searching root => "parcours de " ++ root
  | .decoding path => "décodage " ++ path
  | .decodingInitializer path => "décodage du <clinit> de " ++ path
  | .merging => "échec du scan des classes de ressources"
  | .building => "échec de génération de la classe"
  | .writing directory => "écriture dans " ++ directory
  | .loadingSettings => "chargement de rshrink.toml"

/-- What ended a run. -/
inductive Cause where
  | error (e : Error)
  | refusal (cause : Files.OsError)
  | closedDirectory (path : String) (cause : Files.OsError)
  | missingInput (root : String)
  deriving DecidableEq

/-- The wording of a cause, one part for each link of its chain. -/
def Cause.parts : Cause → List String
  | .error (.io cause) => [Error.text (.io cause), cause.text]
  | .error e => [e.text]
  | .refusal cause => [cause.text]
  | .closedDirectory path cause =>
    ["IO error for operation on " ++ path ++ ": " ++ cause.text, cause.text]
  | .missingInput root => ["entrée introuvable: " ++ root]

/-- A failure: the activities it came through, the outermost first, and its cause. -/
structure Failure where
  during : List Activity
  cause : Cause
  deriving DecidableEq

/-- The wording of a failure. -/
def Failure.text (failure : Failure) : String :=
  String.intercalate ": " (failure.during.map Activity.text ++ failure.cause.parts)

/-- A computation that may fail. -/
abbrev Job (m : Type → Type) := ExceptT Failure m

namespace Job

variable {m : Type → Type} [Monad m] {α : Type}

/-- Fails with a cause. -/
def stop (cause : Cause) : Job m α := throw ⟨[], cause⟩

/-- A step of the monad below, which cannot fail. -/
def ask (step : m α) : Job m α := ExceptT.lift step

/-- The value of a library computation. -/
def ofExcept : Except Error α → Job m α
  | .ok a => pure a
  | .error e => stop (.error e)

/-- The value of an operation of the file system. -/
def ofAnswer : Except Files.OsError α → Job m α
  | .ok a => pure a
  | .error cause => stop (.refusal cause)

/-- The same computation as part of an activity. -/
def during (activity : Activity) (job : Job m α) : Job m α := ExceptT.mk do
  match ← job.run with
  | .ok a => return .ok a
  | .error failure => return .error { failure with during := activity :: failure.during }

end Job

end ResourceMerge
