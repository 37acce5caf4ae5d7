import Fprime.Svc.PrmDb
import Fprime.Lib.OrderedMap

/-!
# Atomicity of the parameter database

To a reader the component is one map that changes at once: by a parameter that is set, or by the
commit of what a load has staged.
-/

namespace Fprime.Svc.PrmDb

open Fw FwString Os Lib Lib.Bytes Function Thread

def lookup (entries : Records) (id : UInt32) : Option ParamBuffer :=
  (entries.find? fun entry => entry.1 = id).map Prod.snd

theorem lookup_isSome (entries : Records) (id : UInt32) :
    id ∈ entries.map Prod.fst ↔ (lookup entries id).isSome := by
  simp only [lookup, Option.isSome_map, List.find?_isSome, List.mem_map, decide_eq_true_eq]

theorem lookup_cons (entry : UInt32 × ParamBuffer) (rest : Records) :
    lookup (entry :: rest) = fun id => if entry.1 = id then some entry.2 else lookup rest id := by
  funext id
  by_cases h : entry.1 = id <;> simp [lookup, h]

theorem lookup_overwriteValue {id : UInt32} {value : ParamBuffer}
    {entries entries' : Records}
    (h : overwriteValue id value entries = some entries') :
    lookup entries' = update (lookup entries) id (some value) := by
  fun_induction overwriteValue id value entries generalizing entries' with
  | case1 => cases h
  | case2 slot rest =>
    cases h
    funext k
    by_cases hk : k = id
    · subst hk
      simp [lookup_cons]
    · simp [lookup_cons, update_of_ne hk, Ne.symm hk]
  | case3 key slot rest hne ih =>
    obtain ⟨rest', hrest, rfl⟩ := Option.map_eq_some_iff.mp h
    funext k
    by_cases hk : k = id
    · subst hk
      simp [lookup_cons, ih hrest, hne]
    · simp [lookup_cons, ih hrest, update_of_ne hk]

theorem lookup_push {id : UInt32} {value : ParamBuffer} {entries : Records}
    (h : id ∉ entries.map Prod.fst) :
    lookup (entries ++ [(id, value)]) = update (lookup entries) id (some value) := by
  induction entries with
  | nil =>
    funext k
    by_cases hk : k = id
    · subst hk
      simp [lookup_cons]
    · simp [lookup_cons, update_of_ne hk, Ne.symm hk]
  | cons entry rest ih =>
    rw [List.map_cons, List.mem_cons, not_or] at h
    rw [List.cons_append, lookup_cons, ih h.2, lookup_cons]
    funext k
    by_cases hk : k = id
    · subst hk
      simp [Ne.symm h.1]
    · simp [update_of_ne hk]

namespace PrmDbStore

def toMap (db : PrmDbStore) : OrderedMap UInt32 ParamBuffer numDbEntries where
  order := db.entries.map Prod.fst
  value := db.find
  mem_order := lookup_isSome db.entries
  nodup := db.nodup
  fits := by
    rw [List.length_map]
    exact db.fits

theorem length_order (db : PrmDbStore) : db.toMap.order.length = db.entries.length :=
  List.length_map _

theorem toMap_insert (db : PrmDbStore) (id : UInt32) (value : ParamBuffer) :
    db.toMap.insert id value =
      if (db.insert id value).1 then some (db.insert id value).2.toMap else none := by
  unfold insert
  split
  · next entries h =>
    refine OrderedMap.insert_of_mem ?_ (keys_of_overwriteValue h) (lookup_overwriteValue h)
    by_contra hnot
    cases h.symm.trans (overwriteValue_eq_none.mpr hnot)
  · next h =>
    have hnew : id ∉ db.toMap.order := overwriteValue_eq_none.mp h
    split
    · next hroom =>
      exact OrderedMap.insert_of_room hnew (by rwa [db.length_order]) List.map_append
        (lookup_push hnew)
    · next hfull => exact OrderedMap.insert_of_full hnew (by rwa [db.length_order])

end PrmDbStore

theorem updateAddPrm_spec (id : UInt32) (val : ParamBuffer) (dbType : PrmDbType) (s : State) :
    (∃ db, (s.updateAddPrm id val dbType).1 ≠ .noSlots ∧
      (s.updateAddPrm id val dbType).2 = s.setDb db dbType ∧
      (s.db dbType).toMap.insert id val = some db.toMap) ∨
    (s.updateAddPrm id val dbType = (.noSlots, s) ∧ (s.db dbType).toMap.insert id val = none) := by
  have hinsert := (s.db dbType).toMap_insert id val
  unfold State.updateAddPrm
  dsimp only
  cases hok : ((s.db dbType).insert id val).1 with
  | false =>
    rw [hok] at hinsert
    exact .inr ⟨by simp, hinsert⟩
  | true =>
    rw [hok, if_pos rfl] at hinsert
    refine .inl ⟨((s.db dbType).insert id val).2, ?_, ?_, hinsert⟩
    · split_ifs <;> simp_all
    · split_ifs <;> simp_all

abbrev PrmMap := OrderedMap UInt32 ParamBuffer numDbEntries

structure Spec where
  map : PrmMap
  staged : Option PrmMap

def loadPath (disk : Disk) (sandboxDir : Path) (fileName : Bytes) : Path :=
  if asStr sandboxDir = [] then asStr fileName
  else (disk.resolveFromCwd (asStr fileName)).getD []

def loadRecords (disk : Disk) (sandboxDir : Path) (fileName : Bytes) :
    Records :=
  leadingRecords numDbEntries
    ((disk.openRead (loadPath disk sandboxDir fileName)).2.contents.drop 4)

namespace Spec

def getPrm (a : Spec) (id : UInt32) (val : ParamBuffer) : ParamValid × ParamBuffer :=
  match a.map.value id with
  | some value => (.valid, value)
  | none => (.invalid, val)

/-- A load merges into a copy of the parameters or into nothing. -/
def base (a : Spec) : Merge → PrmMap
  | .merge => a.map
  | .reset => .empty

/-- A load that succeeds stages what it has merged, a commit puts it in the place of the others;
nothing else changes anything. -/
def commanded (a : Spec) (sandboxDir : Path) (disk : Disk) (response : CmdResponse → Prop)
    [DecidablePred response] : Command → Option Spec
  | .saveFile => some a
  | .loadFile fileName mode =>
    if response .ok then
      if a.staged.isSome then none
      else
        ((a.base mode).insertAll (loadRecords disk sandboxDir fileName)).map fun m =>
          { a with staged := some m }
    else some a
  | .commitStaged =>
    match a.staged with
    | some m => if response .ok then some ⟨m, none⟩ else none
    | none => if response .validationError then some a else none

/-- The parameters after a request and its answers. A parameter is set if no load is staged and
there is room. -/
def completed (a : Spec) (idBase : UInt32) (sandboxDir : Path) (disk : Disk) (outs : List Out) :
    Request → Option Spec
  | .setPrm id val =>
    if a.staged.isSome then some a else some { a with map := (a.map.insert id val).getD a.map }
  | .pingIn _ => some a
  | .cmdIn opCode cmdSeq args =>
    match parseCommand idBase opCode args with
    | .error _ => some a
    | .ok command =>
      a.commanded sandboxDir disk (fun response => .cmdResponse opCode cmdSeq response ∈ outs)
        command

/-- An observation that agrees with the abstract component, and the component after it. -/
def observe (idBase : UInt32) (sandboxDir : Path) (a : Spec) : Observation → Option Spec
  | .got id val answer _ => if answer = a.getPrm id val then some a else none
  | .handled request disk outs => a.completed idBase sandboxDir disk outs request

end Spec

def Shows (sandboxDir : Path) (a : Spec) (s : State) : Prop :=
  s.active.toMap = a.map ∧ s.sandboxDir = sandboxDir

/-- Between two requests the state also shows what is staged. -/
inductive Settled (a : Spec) (s : State) : Prop where
  | idle (hstaged : a.staged = none) (hstate : s.loadState = .idle)
  | staged (m : PrmMap) (hstaged : a.staged = some m) (hstate : s.loadState = .fileUpdatesStaged)
      (hmap : s.staging.toMap = m)

/-- What a handler ends with: the abstract component goes along with it. -/
def Fulfils (idBase : UInt32) (sandboxDir : Path) (a : Spec) (request : Request) (disk : Disk)
    (s : State) : Except Assertion (List Out) → Prop
  | .ok outs => ∃ a', a.completed idBase sandboxDir disk outs request = some a' ∧
      Shows sandboxDir a' s ∧ Settled a' s
  | .error _ => Shows sandboxDir a s

section Handlers

variable {idBase : UInt32} {sandboxDir : Path} {a : Spec} {s : State}

theorem Fulfils.unchanged {request : Request} {disk : Disk} {outs : List Out}
    (hs : Shows sandboxDir a s) (hset : Settled a s)
    (h : a.completed idBase sandboxDir disk outs request = some a) :
    Fulfils idBase sandboxDir a request disk s (.ok outs) :=
  ⟨a, h, hs, hset⟩

theorem fulfils_updateAddPrm (hs : Shows sandboxDir a s) (hstaged : a.staged = none)
    (hstate : s.loadState = .idle) (id : UInt32) (val : ParamBuffer) (disk : Disk)
    (outs : List Out) :
    Fulfils idBase sandboxDir a (.setPrm id val) disk (s.updateAddPrm id val .dbActive).2
      (.ok outs) := by
  refine ⟨{ a with map := (a.map.insert id val).getD a.map }, by simp [Spec.completed, hstaged], ?_⟩
  rw [← hs.1]
  rcases updateAddPrm_spec id val .dbActive s with ⟨db, -, hdb, hinsert⟩ | ⟨hdb, hinsert⟩
  all_goals
    rw [hdb, show s.active.toMap.insert id val = _ from hinsert]
    exact ⟨⟨rfl, hs.2⟩, .idle hstaged hstate⟩

theorem ends_setPrmHandler (hs : Shows sandboxDir a s) (hset : Settled a s) (id : UInt32)
    (val : ParamBuffer) (disk : Disk) :
    (setPrmHandler id val).Ends (Shows sandboxDir a)
      (Fulfils idBase sandboxDir a (.setPrm id val) disk) s := by
  refine ends_read hs ?_
  cases hset with
  | staged m hstaged hstate hmap =>
    rw [hstate, if_pos (by decide)]
    exact .unchanged hs (.staged m hstaged hstate hmap) (by simp [Spec.completed, hstaged])
  | idle hstaged hstate =>
    rw [hstate, if_neg (by decide)]
    have hend := @fulfils_updateAddPrm idBase _ _ _ hs hstaged hstate id val disk
    refine ends_update_last ?_ ?_
    · cases (s.updateAddPrm id val .dbActive).1 <;> exact hend _
    · cases (s.updateAddPrm id val .dbActive).1 <;> exact nofun

variable {args : Bytes} {cmdSeq opCode : UInt32}

theorem completed_cmdIn {disk : Disk} {outs : List Out} {command : Command}
    (h : parseCommand idBase opCode args = .ok command) :
    a.completed idBase sandboxDir disk outs (.cmdIn opCode cmdSeq args) =
      a.commanded sandboxDir disk (fun response => .cmdResponse opCode cmdSeq response ∈ outs)
        command := by
  simp only [Spec.completed, h]

theorem ends_prmSaveFileCmdHandler (hs : Shows sandboxDir a s) (hset : Settled a s) (disk : Disk)
    (hparse : parseCommand idBase opCode args = .ok .saveFile) :
    (prmSaveFileCmdHandler disk opCode cmdSeq).Ends (Shows sandboxDir a)
      (Fulfils idBase sandboxDir a (.cmdIn opCode cmdSeq args) disk) s := by
  have hend : ∀ outs, Fulfils idBase sandboxDir a (.cmdIn opCode cmdSeq args) disk s (.ok outs) :=
    fun outs => .unchanged hs hset (completed_cmdIn hparse)
  refine ends_read hs ?_
  split_ifs
  · exact hend _
  refine ends_read hs ?_
  dsimp only
  split_ifs
  · exact hs
  split
  · refine ends_read hs ?_
    split
    split <;> exact hend _
  · exact hend _

theorem ends_prmCommitStagedCmdHandler (hs : Shows sandboxDir a s) (hset : Settled a s)
    (disk : Disk) (hparse : parseCommand idBase opCode args = .ok .commitStaged) :
    (prmCommitStagedCmdHandler opCode cmdSeq).Ends (Shows sandboxDir a)
      (Fulfils idBase sandboxDir a (.cmdIn opCode cmdSeq args) disk) s := by
  refine ends_read hs ?_
  cases hset with
  | idle hstaged hstate =>
    rw [hstate, if_pos (by decide)]
    refine .unchanged hs (.idle hstaged hstate) ?_
    simp [completed_cmdIn hparse, Spec.commanded, hstaged]
  | staged m hstaged hstate hmap =>
    rw [hstate, if_neg (by decide)]
    refine ends_modify_last ⟨⟨m, none⟩, ?_, ⟨hmap, hs.2⟩, .idle rfl rfl⟩
    simp [completed_cmdIn hparse, Spec.commanded, hstaged]

/-- The database that a load works on, if it has dropped no record so far. -/
def Merged (m : PrmMap) (records : Records) (dropped : Nat) (s : State) :
    Prop :=
  dropped = 0 → m.insertAll records = some s.staging.toMap

theorem shows_updateAddPrm (hs : Shows sandboxDir a s) (id : UInt32) (val : ParamBuffer) :
    Shows sandboxDir a (s.updateAddPrm id val .dbStaging).2 := by
  rcases updateAddPrm_spec id val .dbStaging s with ⟨db, -, hdb, -⟩ | ⟨hdb, -⟩
  · rw [hdb]
    exact hs
  · rw [hdb]
    exact hs

theorem LoadCounts.dropped_le_count (counts : LoadCounts) (update : PrmUpdateType) :
    counts.dropped ≤ (counts.count update).dropped := by
  cases update <;> simp [LoadCounts.count]

theorem ends_readRecords (n : Nat) (file : ParamFile) (counts : LoadCounts) (events : List Event)
    (hs : Shows sandboxDir a s) :
    (readRecords .dbStaging n file counts events).Ends (Shows sandboxDir a)
      (fun s' r => Shows sandboxDir a s' ∧ ∀ counts' events', r = .ok (.ok counts', events') →
        counts.dropped ≤ counts'.dropped ∧
        Merged s.staging.toMap (leadingRecords n file.rest) counts'.dropped s') s := by
  induction n generalizing file counts events s with
  | zero =>
    refine ⟨hs, ?_⟩
    rintro _ _ ⟨⟩
    exact ⟨le_rfl, fun _ => rfl⟩
  | succ n ih =>
    unfold readRecords
    split
    · next hread =>
      refine ⟨hs, ?_⟩
      rintro _ _ ⟨⟩
      refine ⟨le_rfl, fun _ => ?_⟩
      rw [rest_of_endOfFile hread]
      rfl
    · exact ⟨hs, nofun⟩
    · exact ⟨hs, nofun⟩
    · next id value file' hread =>
      refine ends_update (shows_updateAddPrm hs id value) ?_
      refine (ih _ _ _ (shows_updateAddPrm hs id value)).mono ?_
      rintro s' r ⟨hs', hr⟩
      refine ⟨hs', fun counts' events' heq => ?_⟩
      obtain ⟨hle, hmerged⟩ := hr counts' events' heq
      refine ⟨(counts.dropped_le_count _).trans hle, fun hdropped => ?_⟩
      rw [leadingRecords, decodeRecord_of_readRecord hread]
      have hrest := hmerged hdropped
      rcases updateAddPrm_spec id value .dbStaging s with ⟨db, -, hdb, hinsert⟩ | ⟨hdb, -⟩
      · rw [hdb] at hrest
        exact (OrderedMap.insertAll_cons hinsert _).trans hrest
      · rw [hdb, hdropped] at hle
        exact absurd hle (Nat.not_succ_le_zero _)

/-- What a load that succeeds has made of the database it works on. -/
def Loaded (sandboxDir : Path) (a : Spec) (m : PrmMap) (records : Records)
    (s : State) (r : LoadResult) : Prop :=
  Shows sandboxDir a s ∧
    ∀ events, r = .ok (.success, events) → m.insertAll records = some s.staging.toMap

theorem ends_readParamFileWork (opened : FileStatus × ParamFile) (hs : Shows sandboxDir a s) :
    (readParamFileWork opened .dbStaging).Ends (Shows sandboxDir a)
      (Loaded sandboxDir a s.staging.toMap
        (leadingRecords numDbEntries (opened.2.contents.drop 4))) s := by
  unfold readParamFileWork
  split
  · next file =>
    split
    · exact ⟨hs, nofun⟩
    · exact ⟨hs, nofun⟩
    · next file' hcrc =>
      refine .bind_keeps ((ends_readRecords numDbEntries file' {} [] hs).mono ?_)
      rintro s' r ⟨hs', hr⟩
      refine ⟨hs', ?_⟩
      split
      · exact ⟨hs', nofun⟩
      · exact ⟨hs', nofun⟩
      · next counts events =>
        split_ifs with hdropped
        · exact ⟨hs', nofun⟩
        · refine ⟨hs', fun _ _ => ?_⟩
          have hmerged := (hr counts events rfl).2 (by omega)
          rwa [rest_of_checkCrc hcrc] at hmerged
  · exact ⟨hs, nofun⟩

theorem ends_readParamFileImpl (disk : Disk) (fileName : Bytes)
    (hs : Shows sandboxDir a s) :
    (readParamFileImpl disk (asStr fileName) .dbStaging).Ends (Shows sandboxDir a)
      (Loaded sandboxDir a s.staging.toMap (loadRecords disk sandboxDir fileName)) s := by
  unfold readParamFileImpl
  split_ifs
  · exact ⟨hs, nofun⟩
  refine ends_read hs ?_
  rw [hs.2]
  unfold loadRecords loadPath
  by_cases hdir : asStr sandboxDir = []
  · rw [if_pos hdir]
    dsimp only
    rw [if_neg fun h => h.2 hdir]
    exact ends_readParamFileWork _ hs
  · rw [if_neg hdir]
    dsimp only
    rw [if_pos ⟨rfl, hdir⟩]
    cases disk.resolveFromCwd (asStr fileName) with
    | none => exact ⟨hs, nofun⟩
    | some resolved =>
      dsimp only [Option.getD_some]
      split_ifs
      · exact ends_readParamFileWork _ hs
      · exact ⟨hs, nofun⟩

theorem ends_prmLoadFileCmdHandler (hs : Shows sandboxDir a s) (hset : Settled a s) (disk : Disk)
    {fileName : Bytes} {mode : Merge}
    (hparse : parseCommand idBase opCode args = .ok (.loadFile fileName mode)) :
    (prmLoadFileCmdHandler disk opCode cmdSeq fileName mode).Ends (Shows sandboxDir a)
      (Fulfils idBase sandboxDir a (.cmdIn opCode cmdSeq args) disk) s := by
  refine ends_read hs ?_
  cases hset with
  | staged m hstaged hstate hmap =>
    rw [hstate, if_pos (by decide)]
    refine .unchanged hs (.staged m hstaged hstate hmap) ?_
    simp [completed_cmdIn hparse, Spec.commanded]
  | idle hstaged hstate =>
    rw [hstate, if_neg (by decide)]
    refine ends_modify hs ?_
    -- whichever way the load starts, it goes on from the base that it merges into
    refine .bind_keeps (Thread.Ends.mono (Q := fun s' _ => Shows sandboxDir a s' ∧
      s'.staging.toMap = a.base mode) ?_ ?_)
    · cases mode with
      | merge => exact ends_modify_last ⟨hs, hs.1⟩
      | reset => exact ends_modify_last ⟨hs, rfl⟩
    rintro s1 copied ⟨hs1, hbase⟩
    refine ⟨hs1, .bind_keeps ((ends_readParamFileImpl disk fileName hs1).mono ?_)⟩
    rintro s2 r ⟨hs2, hloaded⟩
    refine ⟨hs2, ?_⟩
    rw [hbase] at hloaded
    split
    · exact hs2
    · next events =>
      refine ends_modify_last ⟨{ a with staged := some s2.staging.toMap }, ?_, hs2,
        .staged _ rfl rfl rfl⟩
      simp [completed_cmdIn hparse, Spec.commanded, hstaged, hloaded events rfl]
    · refine ends_modify_last ⟨a, ?_, hs2, .idle hstaged rfl⟩
      simp [completed_cmdIn hparse, Spec.commanded]

theorem ends_handle (hs : Shows sandboxDir a s) (hset : Settled a s) (request : Request)
    (disk : Disk) :
    (handle idBase disk request).Ends (Shows sandboxDir a)
      (Fulfils idBase sandboxDir a request disk) s := by
  cases request with
  | setPrm id val => exact ends_setPrmHandler hs hset id val disk
  | pingIn key => exact .unchanged hs hset rfl
  | cmdIn opCode cmdSeq args =>
    unfold handle cmdInHandler
    dsimp only
    split
    · next response hparse => exact .unchanged hs hset (by simp only [Spec.completed, hparse])
    · next hparse => exact ends_prmSaveFileCmdHandler hs hset disk hparse
    · next hparse => exact ends_prmLoadFileCmdHandler hs hset disk hparse
    · next hparse => exact ends_prmCommitStagedCmdHandler hs hset disk hparse

end Handlers

def InHand (idBase : UInt32) (sandboxDir : Path) (a : Spec) (s : State) : Task → Prop
  | .waiting => Settled a s
  | .busy request disk rest =>
    rest.Ends (Shows sandboxDir a) (Fulfils idBase sandboxDir a request disk) s
  | .aborted _ => True

/-- The abstract component explains what has been observed and shows the same parameters. -/
def Linked (idBase : UInt32) (sandboxDir : Path) (a₀ : Spec) (w : World) : Prop :=
  ∃ a, w.observed.foldlM (Spec.observe idBase sandboxDir) a₀ = some a ∧
    Shows sandboxDir a w.state ∧ InHand idBase sandboxDir a w.state w.task

section Runs

variable {idBase : UInt32} {sandboxDir : Path} {a₀ : Spec}

variable {a : Spec}

theorem observe_append {a' : Spec} {observed : List Observation} {o : Observation}
    (h : observed.foldlM (Spec.observe idBase sandboxDir) a₀ = some a)
    (ho : a.observe idBase sandboxDir o = some a') :
    (observed ++ [o]).foldlM (Spec.observe idBase sandboxDir) a₀ = some a' := by
  simp [List.foldlM_append, h, ho]

/-- The thread comes to a point of a handler: between two sections, or at its end. -/
theorem linked_arrive {w : World} {request : Request} {disk : Disk} {rest : Handler}
    (hobs : w.observed.foldlM (Spec.observe idBase sandboxDir) a₀ = some a)
    (hends : rest.Ends (Shows sandboxDir a) (Fulfils idBase sandboxDir a request disk) w.state)
    (hshows : rest.result? = none → Shows sandboxDir a w.state) :
    Linked idBase sandboxDir a₀ (w.arrive request disk rest) := by
  match rest with
  | .done (.ok outs) =>
    obtain ⟨a', hcompleted, hs, hset⟩ := hends
    exact ⟨a', observe_append hobs hcompleted, hs, hset⟩
  | .done (.error assertion) => exact ⟨a, hobs, hends, trivial⟩
  | .locked f next => exact ⟨a, hobs, hshows rfl, hends⟩

theorem getPrmHandler_eq {s : State} (hs : Shows sandboxDir a s) (count : Nat) (id : UInt32)
    (val : ParamBuffer) :
    ((getPrmHandler s count id val).1, (getPrmHandler s count id val).2.1) = a.getPrm id val := by
  have hfind : s.active.find id = a.map.value id := congrFun (congrArg OrderedMap.value hs.1) id
  unfold getPrmHandler Spec.getPrm
  rw [← hfind]
  cases s.active.find id with
  | some value => rfl
  | none =>
    dsimp only
    split_ifs <;> rfl

theorem Linked.step {w : World} (h : Linked idBase sandboxDir a₀ w) (input : Input) :
    Linked idBase sandboxDir a₀ (w.step idBase input) := by
  obtain ⟨a, hobs, hs, htask⟩ := h
  unfold World.step
  split
  · next request disk =>
    split
    · next hwaiting =>
      rw [hwaiting] at htask
      exact linked_arrive hobs (ends_handle hs htask request disk) fun _ => hs
    · exact ⟨a, hobs, hs, htask⟩
  · split
    · next request disk f next hbusy =>
      rw [hbusy] at htask
      exact linked_arrive hobs htask.1 htask.2
    · exact ⟨a, hobs, hs, htask⟩
  · next id val =>
    split
    · exact ⟨a, hobs, hs, htask⟩
    · refine ⟨a, observe_append hobs ?_, hs, htask⟩
      rw [Spec.observe, if_pos (getPrmHandler_eq hs w.notFoundCount id val)]

end Runs

/-- Whatever the requests and files, and wherever parameters are read in between: the answers are
those of a map that changes at once. -/
theorem refines_atomic_map (idBase : UInt32) (active staging : PrmDbStore)
    (fileName sandboxDir : Path) (inputs : List Input) :
    ∃ a, ((inputs.foldl (World.step idBase)
        (.new ⟨active, staging, .idle, fileName, sandboxDir⟩)).observed).foldlM
      (Spec.observe idBase sandboxDir) ⟨active.toMap, none⟩ = some a := by
  have hstart : Linked idBase sandboxDir ⟨active.toMap, none⟩
      (.new ⟨active, staging, .idle, fileName, sandboxDir⟩) :=
    ⟨_, rfl, ⟨rfl, rfl⟩, .idle rfl rfl⟩
  obtain ⟨a, hobs, -⟩ := Runs.invariant (C := fun _ _ => True)
    (fun _ input h _ => h.step input) hstart (Runs.along_of_forall (fun _ _ _ => trivial) _)
  exact ⟨a, hobs⟩

def noBytes : ParamBuffer :=
  ⟨[], Nat.zero_le _⟩

def surplusRecords : Records :=
  List.replicate numDbEntries (0, noBytes) ++ [(1, noBytes)]

def fileOf (records : Records) : Bytes :=
  let body := records.flatMap encodeRecord
  encodeBE 4 (Utils.Hash.update 0xFFFFFFFF body).toNat ++ body

def holding (contents : Bytes) : Disk where
  resolveFromCwd := some
  checkContainment _ _ := true
  openRead _ := (.opOk, { contents })
  openWrite _ := (.opOk, { contents })

def loadCommitGet (contents : Bytes) (id : UInt32) : List Input :=
  .dispatch (.cmdIn 1 0 [0, 1, 97, 1]) (holding contents) ::
    List.replicate (numDbEntries + 5) .advance ++
    [.dispatch (.cmdIn 2 1 []) (holding contents), .advance, .advance, .getPrm id noBytes]

def answers (observed : List Observation) : List (ParamValid × ParamBuffer) :=
  observed.filterMap fun
    | .got _ _ answer _ => some answer
    | .handled _ _ _ => none

def lastOuts (observed : List Observation) : List Out :=
  observed.filterMap fun
    | .got _ _ _ _ => none
    | .handled _ _ outs => outs.getLast?

/-- A load that succeeds leaves out the last record of the file. -/
theorem surplus_record_ignored :
    (OrderedMap.empty.insertAll surplusRecords : Option PrmMap).map (·.value 1) =
        some (some noBytes) ∧
      lastOuts ((loadCommitGet (fileOf surplusRecords) 1).foldl (World.step 0)
        (.new .new)).observed = [.cmdResponse 1 0 .ok, .cmdResponse 2 1 .ok] ∧
      answers ((loadCommitGet (fileOf surplusRecords) 1).foldl (World.step 0)
        (.new .new)).observed = [(.invalid, noBytes)] := by
  decide +kernel

end Fprime.Svc.PrmDb
