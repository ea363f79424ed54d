import Eventing.BackIndex
import Eventing.Decimal
import Eventing.Transition

/-!
# The tables of the HTTP entries

An application's deployment config has a list of HTTP entries. `loadApp`
(`v8_worker.go`) enters the ports under the new worker, `performAppHTTPSetup`
(`app_setup.go`) starts a server for each entry and enters its URI prefix under the
application, and `storeAppSetup` (`http_handlers.go`) and the `Quit` branch of
`runWorker` take entries out again.
-/
namespace Eventing.HttpTables
open BackIndex

/-- An element of `"http"` in a deployment config. -/
structure HttpConfig where
  port : Text
  rootUriPath : Text
  deriving DecidableEq

/-- The tables, with handles and servers numbered as they are created. `referrers` is
`workerHTTPReferrerTable` with its back index, and `uriPrefixes` is `uriPrefixAppMap` with
`uriPrefixAppnameBackIndex`. `started` and `closed` are the listeners themselves. -/
structure Tables where
  workerTable : Text → Option ℕ
  referrers : Index Text ℕ
  uriPrefixes : Index Text Text
  appHTTPservers : Text → Option (List ℕ)
  handles : ℕ
  started : List (Text × ℕ)
  closed : List ℕ

def Tables.initial : Tables where
  workerTable _ := none
  referrers := .empty
  uriPrefixes := .empty
  appHTTPservers _ := none
  handles := 0
  started := []
  closed := []

inductive Operation
  | loadApp (appName : Text) (httpConfigs : List HttpConfig)
  | performAppHTTPSetup (appName : Text) (httpConfigs : List HttpConfig)
  | storeAppSetup (appName : Text)
  | quit (handle : ℕ)

def localhost : Text := "localhost:".toList

def HttpConfig.referrer (c : HttpConfig) : Text := localhost ++ c.port

/-- `strings.Split(URIPath, "/")[1]`, which panics for a path without a slash. -/
def HttpConfig.path (c : HttpConfig) : Option Text := (c.rootUriPath.splitOn '/')[1]?

namespace Tables

def loadApp (s : Tables) (appName : Text) (httpConfigs : List HttpConfig) : Tables :=
  { s with
    handles := s.handles + 1
    workerTable := Function.update s.workerTable appName (some s.handles)
    referrers := s.referrers.putAll s.handles (httpConfigs.map HttpConfig.referrer) }

/-- A listener is opened and its server entered. An application without an entry makes a
new map. -/
def startServer (s : Tables) (appName : Text) : Tables :=
  { s with
    started := s.started ++ [(appName, s.started.length)]
    appHTTPservers := match s.appHTTPservers appName with
      | some servers =>
          Function.update s.appHTTPservers appName (some (servers ++ [s.started.length]))
      | none => Function.update (fun _ => none) appName (some [s.started.length]) }

def enterPrefix (s : Tables) (appName path : Text) : Tables :=
  { s with uriPrefixes := s.uriPrefixes.put appName path }

/-- There is no result where the path has no slash. That `regexp.MustCompile` panics, too, for
a path that is no pattern, is left out. -/
def performAppHTTPSetup (s : Tables) (appName : Text) : List HttpConfig → Option Tables
  | [] => some s
  | c :: cs =>
      match c.path with
      | none => none
      | some path => ((s.startServer appName).enterPrefix appName path).performAppHTTPSetup appName cs

/-- The section of `storeAppSetup` under `tableLock`. A missing back index gives the empty
path, whose entry is deleted. -/
def storeAppSetup (s : Tables) (appName : Text) : Tables :=
  { s with
    closed := s.closed ++ (s.appHTTPservers appName).getD []
    appHTTPservers := Function.update s.appHTTPservers appName none
    uriPrefixes := match s.workerTable appName with
      | some _ => s.uriPrefixes.remove [] appName
      | none => s.uriPrefixes }

/-- The `Quit` branch of `runWorker`. -/
def quit (s : Tables) (handle : ℕ) : Tables :=
  { s with referrers := s.referrers.remove [] handle }

end Tables

def step (s : Tables) : Operation → Option Tables
  | .loadApp appName httpConfigs => some (s.loadApp appName httpConfigs)
  | .performAppHTTPSetup appName httpConfigs => s.performAppHTTPSetup appName httpConfigs
  | .storeAppSetup appName => some (s.storeAppSetup appName)
  | .quit handle => some (s.quit handle)

def paths (httpConfigs : List HttpConfig) : List Text := httpConfigs.filterMap HttpConfig.path

/-- `performAppHTTPSetup` enters the prefixes in order, and leaves the other tables. -/
theorem performAppHTTPSetup_spec {s t : Tables} {a : Text} {cs : List HttpConfig}
    (h : s.performAppHTTPSetup a cs = some t) :
    t.uriPrefixes = s.uriPrefixes.putAll a (paths cs) ∧ t.referrers = s.referrers ∧
      t.workerTable = s.workerTable ∧ t.handles = s.handles ∧ t.closed = s.closed := by
  induction cs generalizing s with
  | nil =>
    simp only [Tables.performAppHTTPSetup, Option.some.injEq] at h
    subst h
    exact ⟨rfl, rfl, rfl, rfl, rfl⟩
  | cons c cs ih =>
    rw [Tables.performAppHTTPSetup] at h
    cases hc : c.path with
    | none => simp [hc] at h
    | some path =>
      rw [hc] at h
      have hp : paths (c :: cs) = path :: paths cs := by simp [paths, hc]
      rw [hp]
      exact ih h

end Eventing.HttpTables
