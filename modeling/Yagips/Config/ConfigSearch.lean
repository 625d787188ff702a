import Yagips.Config.ConfigFile

/-!
# The search for a configuration

The first configuration is that of the first file on the list of paths which opens and which the parser takes.
Without a home directory the loop leaves out one path more than the five under it.
-/
namespace Yagips.Config.ConfigSearch

open Yagips.Lib
open Yagips.Toml (Table Text Value Body tomlParseFile)
open Yagips.Config.RunConfig
open Yagips.Config.ConfigFile

def configFileName : Bytes := ascii "yagips.conf"

/-- What the paths of a search depend on: the directories of the build, the path given to the constructor, and
the home directory as the environment and the user database have it. -/
structure Place where
  confdir : Bytes
  topconfdir : Bytes
  path : Option Bytes
  envHome : Option Bytes
  pwDir : Option Bytes

/-- The table of a file, if there is one. -/
def load (fopen : Bytes → Option Bytes) (path : Bytes) : Option Table := fopen path >>= fun file => (tomlParseFile file).toOption

theorem load_some {fopen : Bytes → Option Bytes} {path : Bytes} {root : Table} : load fopen path = some root ↔
    ∃ file, fopen path = some file ∧ tomlParseFile file = .ok root := by
  rw [load, Option.bind_eq_bind, Option.bind_eq_some_iff]
  refine exists_congr fun file => and_congr_right fun _ => ?_
  cases tomlParseFile file with
  | error e => simp [Except.toOption]
  | ok root => simp [Except.toOption]

namespace Place

variable (place : Place) (fopen : Bytes → Option Bytes)

def pathList : List (Option Bytes) :=
  [none, some configFileName, some (ascii ".yagips/config"), some (ascii ".yagips/" ++ configFileName),
    some (ascii ".config/" ++ configFileName), some (ascii "." ++ configFileName), some configFileName,
    some (place.confdir ++ ascii "/config"), some (place.confdir ++ ascii "/" ++ configFileName),
    some (place.topconfdir ++ ascii "/" ++ configFileName), none]

def homePath : Option Bytes :=
  match place.envHome with
  | some home => some home
  | none => place.pwDir

/-- `snprintf` into `homePathBuf`, which cuts what is too long. -/
def underHome (home path : Bytes) : Bytes := (home ++ ascii "/" ++ path).take 4094

/-- The path that is tried at `i`, or where the loop goes on. -/
def pathAt (i : Nat) : Except Nat Bytes :=
  let entry := (place.pathList[i]?).join
  if i = 0 then
    match place.path with
    | none => .error (i + 1)
    | some path => .ok path
  else if 2 ≤ i ∧ i ≤ 6 then
    match place.homePath with
    -- the step of the loop comes on top of the five
    | none => .error (i + 5 + 1)
    | some home => .ok (underHome home (entry.getD []))
  else
    match entry with
    | none => .error (i + 1)
    | some path => .ok path

/-- The loop over `pathList` from `i`, in `n` turns at most. -/
def search : Nat → Nat → Option Table
  | 0, _ => none
  | n + 1, i =>
    if i < 11 then
      match place.pathAt i with
      | .error next => search n next
      | .ok path =>
        match fopen path with
        | none => search n (i + 1)
        | some file =>
          match tomlParseFile file with
          | .error _ => search n (i + 1)
          | .ok root => some root
    else none

def rootConfig : Option Table := place.search fopen 12 0

/-- `Config::Config`. -/
def construct (heap : Heap) (dataDir : Bytes) : Except Fault ConfigT := config tomlC heap dataDir ((place.rootConfig fopen).map forget)

/-! ## The paths in their order -/

def homePaths (home : Bytes) : List Bytes :=
  [ascii ".yagips/config", ascii ".yagips/" ++ configFileName, ascii ".config/" ++ configFileName, ascii "." ++ configFileName,
    configFileName].map (underHome home)

def confPath : Bytes := place.confdir ++ ascii "/config"

/-- The paths of the installation, behind those of the user. -/
def lastPaths : List Bytes := [place.confdir ++ ascii "/" ++ configFileName, place.topconfdir ++ ascii "/" ++ configFileName]

/-- The list as it is meant: without a home directory nothing under it. -/
def listed : List Bytes :=
  place.path.toList ++ configFileName :: ((place.homePath.elim [] homePaths) ++ place.confPath :: place.lastPaths)

/-- The paths that are tried. -/
def tried : List Bytes :=
  place.path.toList ++ configFileName :: ((place.homePath.elim [] fun home => homePaths home ++ [place.confPath]) ++ place.lastPaths)

variable {place fopen}

theorem search_end (n : Nat) : place.search fopen n 11 = none := by
  cases n with
  | zero => rfl
  | succ n => rfl

theorem search_skip {n i next : Nat} (hi : i < 11) (h : place.pathAt i = .error next) :
    place.search fopen (n + 1) i = place.search fopen n next := by
  rw [search, if_pos hi, h]

theorem search_try {n i : Nat} {path : Bytes} (hi : i < 11) (h : place.pathAt i = .ok path) :
    place.search fopen (n + 1) i = (load fopen path).or (place.search fopen n (i + 1)) := by
  rw [search, if_pos hi, h, load]
  dsimp only
  cases fopen path with
  | none => rfl
  | some file =>
    dsimp only [Option.bind_eq_bind, Option.bind_some]
    cases tomlParseFile file with
    | error e => rfl
    | ok root => rfl

theorem findSome?_cons_or {A B : Type} (f : A → Option B) (a : A) (l : List A) : (a :: l).findSome? f = (f a).or (l.findSome? f) := by
  rw [List.findSome?_cons]
  cases f a with
  | none => rfl
  | some b => rfl

theorem search_last (n : Nat) : place.search fopen (n + 4) 8 = place.lastPaths.findSome? (load fopen) := by
  rw [search_try (by decide) rfl, search_try (by decide) rfl, search_skip (by decide) rfl, search_end]
  simp only [lastPaths, findSome?_cons_or, List.findSome?_nil]

theorem search_home {home : Bytes} (hhome : place.homePath = some home) (n : Nat) :
    place.search fopen (n + 10) 2 = (homePaths home ++ place.confPath :: place.lastPaths).findSome? (load fopen) := by
  have hat : ∀ i, 2 ≤ i ∧ i ≤ 6 → place.pathAt i = .ok (underHome home ((place.pathList[i]?).join.getD [])) := by
    intro i hi
    rw [pathAt, if_neg (by omega), if_pos hi, hhome]
  rw [search_try (by decide) (hat 2 (by decide)), search_try (by decide) (hat 3 (by decide)),
    search_try (by decide) (hat 4 (by decide)), search_try (by decide) (hat 5 (by decide)),
    search_try (by decide) (hat 6 (by decide)), search_try (by decide) rfl, search_last]
  simp only [homePaths, List.map_cons, List.map_nil, List.cons_append, List.nil_append, findSome?_cons_or]
  rfl

/-- Past the entries under the home directory the loop stands at the one behind `CONFDIR "/config"`. -/
theorem search_homeless (hhome : place.homePath = none) (n : Nat) :
    place.search fopen (n + 5) 2 = place.lastPaths.findSome? (load fopen) := by
  have hat : place.pathAt 2 = .error 8 := by
    rw [pathAt, if_neg (by decide), if_pos (by decide), hhome]
  rw [search_skip (by decide) hat, search_last]

theorem rootConfig_eq : place.rootConfig fopen = place.tried.findSome? (load fopen) := by
  have hbehind : place.search fopen 10 2 =
      ((place.homePath.elim [] fun home => homePaths home ++ [place.confPath]) ++ place.lastPaths).findSome? (load fopen) := by
    cases hhome : place.homePath with
    | none => exact search_homeless hhome 5
    | some home =>
      rw [search_home hhome 0, Option.elim_some, List.append_assoc]
      rfl
  have hnamed : place.search fopen 11 1 = (load fopen configFileName).or (place.search fopen 10 2) := search_try (by decide) rfl
  rw [rootConfig, tried, List.findSome?_append, findSome?_cons_or, ← hbehind, ← hnamed]
  cases hpath : place.path with
  | none =>
    have hat : place.pathAt 0 = .error 1 := by rw [pathAt, if_pos rfl, hpath]
    exact search_skip (by decide) hat
  | some path =>
    have hat : place.pathAt 0 = .ok path := by rw [pathAt, if_pos rfl, hpath]
    rw [search_try (by decide) hat, Option.toList_some, findSome?_cons_or, List.findSome?_nil, Option.or_none]

theorem rootConfig_first {earlier later : List Bytes} {path : Bytes} {root : Table} (htried : place.tried = earlier ++ path :: later)
    (hearlier : ∀ p ∈ earlier, load fopen p = none) (hload : load fopen path = some root) : place.rootConfig fopen = some root := by
  rw [rootConfig_eq, htried, List.findSome?_append, List.findSome?_eq_none_iff.mpr hearlier, Option.none_or, findSome?_cons_or, hload,
    Option.some_or]

theorem construct_root {root : Table} (hroot : place.rootConfig fopen = some root) (heap : Heap) (dataDir : Bytes) :
    place.construct fopen heap dataDir = config tomlC heap dataDir (some (forget root)) := by
  rw [construct, hroot]
  rfl

/-- The path that is left out is none of the others that are tried without a home directory. -/
theorem confPath_apart : place.confPath ∉ configFileName :: place.lastPaths := by
  have hconf : place.confPath.getLast? = some 0x67 := List.getLast?_append_of_ne_nil _ (by decide)
  have hname : ∀ p ∈ configFileName :: place.lastPaths, p.getLast? = some 0x66 := by
    simp only [lastPaths, List.forall_mem_cons]
    refine ⟨rfl, List.getLast?_append_of_ne_nil _ (by decide), List.getLast?_append_of_ne_nil _ (by decide), by simp⟩
  intro hmem
  have hlast := hname _ hmem
  rw [hconf] at hlast
  cases hlast

theorem tried_home {home : Bytes} (hhome : place.homePath = some home) : place.tried = place.listed := by
  rw [tried, listed, hhome, Option.elim_some, Option.elim_some, List.append_assoc]
  rfl

theorem tried_homeless (hhome : place.homePath = none) : place.tried = place.path.toList ++ configFileName :: place.lastPaths := by
  rw [tried, hhome, Option.elim_none, List.nil_append]

theorem listed_homeless (hhome : place.homePath = none) :
    place.listed = place.path.toList ++ configFileName :: place.confPath :: place.lastPaths := by
  rw [listed, hhome, Option.elim_none, List.nil_append]

/-- Where the path that is left out was given, it has been tried before. -/
theorem tried_given (hhome : place.homePath = none) (hpath : place.path = some place.confPath) {A : Type} (f : Bytes → Option A) :
    place.tried.findSome? f = place.listed.findSome? f := by
  rw [tried_homeless hhome, listed_homeless hhome, hpath]
  simp only [Option.toList_some, List.cons_append, List.nil_append, findSome?_cons_or]
  cases f place.confPath with
  | some a => rfl
  | none => rw [Option.none_or, Option.none_or, Option.none_or]

/-- An empty file at a path and no other. -/
def onlyAt (path : Bytes) : Bytes → Option Bytes := fun p => if p = path then some [] else none

theorem load_onlyAt (path p : Bytes) : load (onlyAt path) p = if p = path then some {} else none := by
  by_cases hp : p = path
  · rw [if_pos hp]
    exact load_some.mpr ⟨[], if_pos hp, rfl⟩
  · rw [if_neg hp, load, onlyAt, if_neg hp]
    rfl

/-- Without a home directory an empty file at the path that is left out is not found, though it is on the list. -/
theorem confPath_missed (hhome : place.homePath = none) (hpath : place.path ≠ some place.confPath) :
    place.rootConfig (onlyAt place.confPath) = none ∧ place.listed.findSome? (load (onlyAt place.confPath)) ≠ none := by
  constructor
  · rw [rootConfig_eq]
    refine List.findSome?_eq_none_iff.mpr fun p hp => ?_
    rw [load_onlyAt, if_neg]
    rintro rfl
    rw [tried_homeless hhome, List.mem_append, Option.mem_toList] at hp
    exact hp.elim hpath confPath_apart
  · intro hnone
    have hmem : place.confPath ∈ place.listed := by
      rw [listed_homeless hhome]
      simp
    have hleft := List.findSome?_eq_none_iff.mp hnone _ hmem
    rw [load_onlyAt, if_pos rfl] at hleft
    cases hleft

end Place

/-- The search goes by the list as it is meant, whatever files there are, just where a home directory is known or
the path that is left out was the one given. -/
theorem search_listed_iff (place : Place) :
    (∀ fopen, place.rootConfig fopen = place.listed.findSome? (load fopen)) ↔
      place.homePath ≠ none ∨ place.path = some place.confPath := by
  constructor
  · intro hall
    by_contra hnot
    obtain ⟨hhome, hpath⟩ := not_or.mp hnot
    obtain ⟨hroot, hlisted⟩ := Place.confPath_missed (not_not.mp hhome) hpath
    exact hlisted ((hall _).symm.trans hroot)
  · rintro (hhome | hpath) fopen
    · obtain ⟨home, hhome⟩ := Option.ne_none_iff_exists'.mp hhome
      rw [Place.rootConfig_eq, Place.tried_home hhome]
    · rw [Place.rootConfig_eq]
      cases hhome : place.homePath with
      | some home =>
        rw [Place.tried_home hhome]
      | none => exact Place.tried_given hhome hpath _

def gateserverPlace : Place where
  confdir := ascii "/etc/yagips"
  topconfdir := ascii "/etc"
  path := none
  envHome := none
  pwDir := none

def ampleHeap : Heap := { regionInfo := true, res := true, resNext := true, stopServer := true, staleDomainName := 0 }

theorem ampleHeap_ample : Ample ampleHeap := ⟨rfl, rfl, rfl, rfl⟩

end Yagips.Config.ConfigSearch
