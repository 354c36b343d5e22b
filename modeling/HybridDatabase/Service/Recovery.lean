/-
# Databases that crash

A database that runs one transaction after another hands their elements to the service thread.  When
it stops, its last data file has lost some of what was not on the disk yet, and `load_data` makes a
database of what is left.

Beside the files goes the durable history of the nodes: a crash leads back to one of its states, and
`load_data` finds just this one.
-/

import HybridDatabase.Service.Histories

namespace HybridDatabase.Service

open HybridDatabase.Base HybridDatabase.Storage HybridDatabase.Database HybridDatabase.Transaction

/-! ## The system -/

/-- The data files of a database that is open, and its nodes between two transactions. -/
structure Session where
  files : Files
  world : World

/-- What `database_create` makes where there is no data file. -/
def Session.create (T : DatabaseType) : Session := ⟨newDatabase T, emptyWorld⟩

/-- What a crash may leave of the data files in a directory with the schema of the database. -/
structure Files.Leaves (T : DatabaseType) (base : Bases) (F : Files) (cut : Bytes)
    (directory : Directory) : Prop where
  schema : ∃ schema, directory.schema = some schema ∧ written (writeSchema T) = .ok schema
  schemaFits : Addressable base T.schema.file
  files : directory.files = F.earlier ++ [(F.number, cut)]
  front : cut <+: F.output.contents
  enough : F.kept T ≤ cut.length

/-- `ndictFor` visits every node of the dictionary once. -/
def VisitsMemory (order : List ℕ) (M : Memory) : Prop :=
  order.Nodup ∧ ∀ id, id ∈ order ↔ (M.nodes id).isSome

/-- The service thread goes on with the file that `load_data` has opened. -/
structure Files.Opened (F : Files) (D : Opening) : Prop where
  all : F.all = D.directory.files
  descriptor : D.descriptor = .file F.number
  fileIndex : F.fileIndex = D.fileIndex
  isOpen : F.isOpen = true
  empty : F.output.buffer = []

/-- What happens to a database, and what it means for the history of its nodes.  A transaction that
only wrote to indexes is left out. -/
inductive Event (T : DatabaseType) (base : Bases) :
    Session → List (History.Change Nodes) → Session → Prop
  | commit {s : Session} {t : Transaction.State} {W : Writer} {bytes : Bytes}
      {answer : Option DbError} {F : Files}
      (run : Reaches (Transaction.State.step T) (Transaction.State.Allowed T) s.world.begin t)
      (outermost : t.transactions = []) (operation : ∃ item ∈ t.log, item.IsNodeOperation)
      (stored : processTransactionLog Writer.init t.log = some W) (output : W.output = some bytes)
      (short : ∀ body, transactionBytes (records t.log) = some body → body.length < 2 ^ 63)
      (sync : Bool) (handled : serviceJob T (.commit bytes sync) s.files = .ok answer F) :
      Event T base s (.push t.commit.nodes :: if sync then [.sync] else []) ⟨F, t.commit⟩
  | readOnly {s : Session} {t : Transaction.State}
      (run : Reaches (Transaction.State.step T) (Transaction.State.Allowed T) s.world.begin t)
      (outermost : t.transactions = []) (empty : t.log = []) :
      Event T base s [] ⟨s.files, t.commit⟩
  | abort {s : Session} {t : Transaction.State}
      (run : Reaches (Transaction.State.step T) (Transaction.State.Allowed T) s.world.begin t) :
      Event T base s [] ⟨s.files, t.abort⟩
  | createNewFile {s : Session} {answer : Option DbError} {F : Files} (magic : Magic)
      (handled : serviceJob T (.createNewFile magic.number true) s.files = .ok answer F) :
      Event T base s [.sync] ⟨F, s.world⟩
  | syncMe {s : Session} {answer : Option DbError} {F : Files}
      (handled : serviceJob T .syncMe s.files = .ok answer F) : Event T base s [.sync] ⟨F, s.world⟩
  /-- The database is opened again, and `load_data` has not switched to read-only mode. -/
  | restart {s : Session} {cut : Bytes} {directory : Directory} {create : Bool} {D : Opening}
      {order : List ℕ} {nodes : Nodes} {F : Files} (leaves : s.files.Leaves T base cut directory)
      (loaded : loadData T base (Opening.start false create directory) = .ok D)
      (writable : D.readOnly = false) (visits : VisitsMemory order D.memory)
      (fixed : fixPointers T order (unlinked D.memory) = some nodes) (opened : F.Opened D)
      (synced : F.output.synced = s.files.output.synced) :
      Event T base s [.crash] ⟨F, nodes, D.memory.counter⟩

/-- What can happen to a database from a session on; its files always fit into the memory. -/
inductive Continues (T : DatabaseType) (base : Bases) (s : Session) :
    List (History.Change Nodes) → Session → Prop
  | now (fits : s.files.Fits base) : Continues T base s [] s
  | more {changes event : List (History.Change Nodes)} {t u : Session}
      (before : Continues T base s changes t) (happens : Event T base t event u)
      (fits : u.files.Fits base) : Continues T base s (changes ++ event) u

variable {T : DatabaseType} {base : Bases} {M : Memory} {H : History Nodes}

/-! ## Every event keeps the history -/

/-- Another bound of the ids. -/
theorem sound_recount {N N' : ℕ} {nodes : Nodes} {deleted : List ℕ}
    (sound : Sound T N nodes deleted) (bounded : ∀ id, (nodes id).isSome → id ≤ N')
    (small : N' < 2 ^ 64) : Sound T N' nodes deleted := by
  have absent {k : ℕ} (above : ∀ id, (nodes id).isSome → id ≤ k) (id : ℕ) (beyond : k < id) :
      nodes.view id = none := by
    rw [← Option.not_isSome_iff_eq_none, isSome_view]
    intro present
    exact absurd (above id present) (by omega)
  have same (x : ℕ) : references nodes.view N' x = references nodes.view N x := by
    obtain le | le := Nat.le_total N N'
    · exact references_raise le (absent fun id present => (sound.bounded id present).2) x
    · exact (references_raise le (absent bounded) x).symm
  refine ⟨small, fun id present => ⟨(sound.bounded id present).1, bounded id present⟩, sound.typed,
    fun id present => ?_, sound.linked, sound.deleted⟩
  rw [same]
  exact sound.counted id present

/-- The files of a session hold the history of its nodes. -/
structure Session.Tracks (T : DatabaseType) (base : Bases) (s : Session) (H : History Nodes)
    (M : Memory) : Prop where
  recorded : Recorded T base s.files H M
  current : H.current = s.world.nodes
  sound : Sound T s.world.counter s.world.nodes []
  always : H.Always fun nodes => ∃ N, Sound T N nodes []

theorem Session.Tracks.created (fits : (newDatabase T).Fits base) :
    ∃ M, Session.Tracks T base (Session.create T) (.safe fun _ => none) M := by
  obtain ⟨M, recorded⟩ := Recorded.created fits
  have sound := sound_empty T
  exact ⟨M, recorded, rfl, sound, History.always_safe ⟨1, sound⟩⟩

/-- The element of a committed transaction. -/
theorem transaction_element {log : List LogItem} {W : Writer} {bytes : Bytes}
    (stored : processTransactionLog Writer.init log = some W) (output : W.output = some bytes)
    (short : ∀ body, transactionBytes (records log) = some body → body.length < 2 ^ 63) :
    ∃ element : RootElement, element.bytes = bytes ∧
      (Element.transaction (records log)).root T = some element := by
  obtain ⟨body, found⟩ := transactionBytes_of_written stored
  obtain ⟨W', stored', output'⟩ :=
    (writesElements_processTransactionLog found (short body found)).output
  obtain rfl := Option.some.inj (stored.symm.trans stored')
  refine ⟨.ofBody body true, ?_, ?_⟩
  · rw [RootElement.bytes_ofBody]
    exact Option.some.inj (output'.symm.trans output)
  · show (transactionBytes (records log)).map _ = _
    rw [found]
    rfl

namespace Session.Tracks

variable {s s' : Session}

/-- A committed transaction. -/
theorem commit (narrow : Transaction.State.Narrow T) {t : Transaction.State} {W : Writer}
    {bytes : Bytes} (tracks : Session.Tracks T base s H M)
    (run : Reaches (Transaction.State.step T) (Transaction.State.Allowed T) s.world.begin t)
    (operation : ∃ item ∈ t.log, item.IsNodeOperation)
    (stored : processTransactionLog Writer.init t.log = some W) (output : W.output = some bytes)
    (short : ∀ body, transactionBytes (records t.log) = some body → body.length < 2 ^ 63)
    (fits : Addressable base (s.files.output.contents ++ bytes)) :
    ∃ M', Session.Tracks T base
      ⟨{ s.files with output := s.files.output.bufferedWrite bytes }, t.commit⟩
      (H.push t.commit.nodes) M' := by
  have loaded : M.nodes = s.world.nodes.view := by
    rw [← tracks.current]
    exact tracks.recorded.loaded
  obtain ⟨sound, recordsFit, replayed⟩ := commit_replayed narrow tracks.sound loaded run
  obtain ⟨element, rfl, root⟩ := transaction_element (T := T) stored output short
  have effect (first : Bool) : element.effect T first base M =
      some (applyRecords T M (records t.log)) := by
    have accepted : (Element.transaction (records t.log)).Accepted T first M :=
      ⟨records_ne_nil_iff.mpr operation, recordsFit⟩
    exact effect_of_accepted accepted root fits.of_append.2
  have counted := tracks.recorded.counted.applyRecords recordsFit
  refine ⟨_, tracks.recorded.write effect replayed counted, History.current_push _ _, sound,
    fun nodes inside => ?_⟩
  obtain before | new := List.mem_append.mp inside
  · exact tracks.always nodes before
  · rw [List.mem_singleton.mp new]
    exact ⟨_, sound⟩

theorem sync (tracks : Session.Tracks T base s H M) :
    Session.Tracks T base { s with files :=
      { s.files with output := s.files.output.bufferedSync } } H.sync M :=
  ⟨tracks.recorded.sync, tracks.current, tracks.sound,
    History.always_safe (tracks.always _ H.current_mem)⟩

/-- Whatever a crash leaves is opened as one of the states of the history. -/
theorem reopen (tracks : Session.Tracks T base s H M) (fits : s.files.Fits base) {cut : Bytes}
    {directory : Directory} (leaves : s.files.Leaves T base cut directory)
    (readOnly create : Bool) :
    ∃ P D, P.Survives H ∧ loadData T base (Opening.start readOnly create directory) = .ok D ∧
      D.memory.nodes = P.current.view ∧
      (∀ order, VisitsMemory order D.memory →
        fixPointers T order (unlinked D.memory) = some P.current) ∧
      (cut = s.files.output.contents → P = H ∧ D.readOnly = readOnly) ∧
      (D.readOnly = false → ∀ F : Files, F.Opened D → F.output.synced = s.files.output.synced →
        F.earlier = s.files.earlier ∧
          ∃ M', Session.Tracks T base ⟨F, P.current, D.memory.counter⟩ P M') := by
  obtain ⟨P, M', ending, survives, loaded, counted, chain, notNew, whole, again⟩ :=
    tracks.recorded.reload fits leaves.front leaves.enough
  obtain ⟨schema, present, stored⟩ := leaves.schema
  have recorded := tracks.recorded
  have full : NoHoles directory.files := by
    rw [leaves.files]
    exact noHoles_of_numbers (recorded.numbers_concat cut)
  rw [← leaves.files] at chain
  obtain ⟨D, opened, memory, files, flag, writable⟩ := loadData_last present
    (schemaAccepted_written stored leaves.schemaFits) leaves.files full chain notNew readOnly create
  obtain ⟨N, sound⟩ := tracks.always _ (survives.subset P.current_mem)
  subst memory
  refine ⟨P, D, survives, opened, loaded, fun order visits => ?_, fun same => ?_, ?_⟩
  · refine fixPointers_unlinked sound loaded ⟨visits.1, fun id => ?_⟩
    rw [visits.2 id, loaded, isSome_view]
  · obtain ⟨rfl, rfl⟩ := whole same
    exact ⟨rfl, by rw [flag]; simp⟩
  · intro unlocked F reopened synced
    rw [flag, Bool.or_eq_false_iff] at unlocked
    have append : ending = .append := by
      cases ending with
      | readOnly => exact absurd unlocked.2 (by decide)
      | append => rfl
      | createNew => exact absurd rfl notNew
    obtain ⟨earlier, last⟩ := List.append_inj' (reopened.all.trans (files.trans leaves.files)) rfl
    obtain ⟨number, written⟩ := Prod.mk.inj (List.singleton_inj.mp last)
    have contents : F.output.contents = cut := by
      rw [Output.contents, reopened.empty, List.append_nil, written]
    have index : F.fileIndex = s.files.fileIndex := by
      rw [reopened.fileIndex, (writable (by rw [flag, unlocked.1, unlocked.2]; rfl)).2,
        recorded.fileIndex]
    have same : F = { s.files with output := F.output } := by
      have open_ := reopened.isOpen.trans recorded.isOpen.symm
      obtain ⟨earlier', number', isOpen', output', fileIndex'⟩ := F
      obtain rfl : earlier' = s.files.earlier := earlier
      cases number
      cases open_
      cases index
      rfl
    refine ⟨earlier, D.memory, ?_, rfl, ?_,
      fun nodes inside => tracks.always nodes (survives.subset inside)⟩
    · show Recorded T base F P D.memory
      rw [same]
      exact again append F.output contents synced
    · refine sound_recount sound (fun id present => counted.bounded id ?_) counted.small
      rw [loaded, isSome_view]
      exact present

end Session.Tracks

/-- Each event does to the history what it says, and the closed files stay. -/
theorem Event.tracks {s s' : Session} {event : List (History.Change Nodes)}
    (narrow : Transaction.State.Narrow T) (happens : Event T base s event s')
    (tracks : Session.Tracks T base s H M) (fits : s.files.Fits base) (fits' : s'.files.Fits base) :
    s.files.earlier <+: s'.files.earlier ∧
      ∃ H' M', History.Steps H event H' ∧ Session.Tracks T base s' H' M' := by
  have isOpen := tracks.recorded.isOpen
  cases happens with
  | @commit t W bytes answer F run outermost operation stored output short sync handled =>
      have written := bufferedWrite_open isOpen bytes
      have grown : Addressable base F.output.contents := fits'.2
      cases sync with
      | false =>
          cases handled.symm.trans (bind_ok written)
          rw [Output.contents_bufferedWrite] at grown
          obtain ⟨M', next⟩ := tracks.commit narrow run operation stored output short grown
          exact ⟨List.prefix_rfl, _, M', (History.Step.push H _).steps, next⟩
      | true =>
          cases handled.symm.trans ((bind_ok written).trans
            (bind_ok (bufferedSync_open isOpen)))
          rw [Output.contents_bufferedSync, Output.contents_bufferedWrite] at grown
          obtain ⟨M', next⟩ := tracks.commit narrow run operation stored output short grown
          exact ⟨List.prefix_rfl, _, M', (History.Step.push H _).steps.more (.sync _), next.sync⟩
  | readOnly run outermost empty =>
      have loaded : M.nodes = s.world.nodes.view := by
        rw [← tracks.current]
        exact tracks.recorded.loaded
      obtain ⟨sound, -, -⟩ := commit_replayed narrow tracks.sound loaded run
      have undone := (Transaction.State.good_run narrow tracks.sound loaded run).holds.now.undone
      rw [empty] at undone
      refine ⟨List.prefix_rfl, H, M, .nothing, tracks.recorded, tracks.current.trans ?_, sound,
        tracks.always⟩
      show s.world.nodes = Transaction.State.freeGarbage _ (Transaction.State.garbage _)
      rw [empty]
      exact undone.symm
  | abort run =>
      obtain ⟨same, sound⟩ := abort_nodes narrow tracks.sound run
      exact ⟨List.prefix_rfl, H, M, .nothing, tracks.recorded, tracks.current.trans same.symm,
        sound, tracks.always⟩
  | createNewFile magic handled =>
      cases handled.symm.trans (serviceNewFile_open T isOpen false magic.number true)
      have synced := tracks.sync
      have grown : Addressable base
          (s.files.output.bufferedSync.contents ++ footerBytes magic.number) := by
        rw [Output.contents, Output.buffer_bufferedSync, List.append_nil]
        exact fits'.1 _ (List.mem_append_right _ (List.mem_singleton_self _))
      obtain ⟨M', recorded⟩ := synced.recorded.rotate (Output.buffer_bufferedSync _) magic grown
      exact ⟨List.prefix_append _ _, H.sync, M', (History.Step.sync H).steps, recorded,
        synced.current, synced.sound, synced.always⟩
  | syncMe handled =>
      cases handled.symm.trans (bind_ok (bufferedSync_open isOpen))
      exact ⟨List.prefix_rfl, _, M, (History.Step.sync H).steps, tracks.sync⟩
  | restart leaves loaded writable visits fixed opened synced =>
      obtain ⟨P, D, survives, load, -, fix, -, again⟩ := tracks.reopen fits leaves false _
      cases loaded.symm.trans load
      obtain ⟨earlier, M', next⟩ := again writable _ opened synced
      cases fixed.symm.trans (fix _ visits)
      refine ⟨?_, P, M', (History.Step.crash survives).steps, next⟩
      show s.files.earlier <+: Files.earlier _
      rw [earlier]

theorem Continues.fits {s s' : Session} {changes : List (History.Change Nodes)}
    (life : Continues T base s changes s') : s.files.Fits base ∧ s'.files.Fits base := by
  induction life with
  | now fits => exact ⟨fits, fits⟩
  | more before happens fits ih => exact ⟨ih.1, fits⟩

theorem Continues.tracks {s s' : Session} {changes : List (History.Change Nodes)}
    (narrow : Transaction.State.Narrow T) (life : Continues T base s changes s')
    (tracks : Session.Tracks T base s H M) :
    s.files.earlier <+: s'.files.earlier ∧
      ∃ H' M', History.Steps H changes H' ∧ Session.Tracks T base s' H' M' := by
  induction life with
  | now fits => exact ⟨List.prefix_rfl, H, M, .nothing, tracks⟩
  | more before happens fits ih =>
      obtain ⟨closed, H₁, M₁, steps, now⟩ := ih
      obtain ⟨longer, H', M', more, later⟩ := happens.tracks narrow now before.fits.2 fits
      exact ⟨closed.trans longer, H', M', steps.trans more, later⟩

/-- A history belongs to every run from an empty database on. -/
theorem Continues.history {s : Session} {changes : List (History.Change Nodes)}
    (narrow : Transaction.State.Narrow T) (life : Continues T base (Session.create T) changes s) :
    ∃ H M, History.Steps (.safe emptyWorld.nodes) changes H ∧ Session.Tracks T base s H M := by
  obtain ⟨M, created⟩ := Session.Tracks.created life.fits.1
  exact (life.tracks narrow created).2

/-! ## Databases to which nodes are added -/

theorem addressable_of_short {file : Bytes} (short : file.length ≤ 1024) :
    Addressable 4096 file := by
  have top : (4096 : Bases).top = 4096 := rfl
  exact ⟨by omega, by omega⟩

theorem newDatabase_fits : (newDatabase linkType).Fits 4096 ∧
    (newDatabase linkType).output.contents.length ≤ 512 := by
  have length : (newDatabase linkType).output.contents.length ≤ 512 := by
    show (Output.ofFile _).contents.length ≤ 512
    rw [Output.contents_ofFile]
    exact length_newFile linkType
  exact ⟨⟨fun file inside => (by cases inside), addressable_of_short (by omega)⟩, length⟩

/-- A session with one data file, which is short, and of which a crash leaves `safe` bytes or
more. -/
structure Session.Small (s : Session) (safe length : ℕ) : Prop where
  earlier : s.files.earlier = []
  number : s.files.number = 1
  isOpen : s.files.isOpen = true
  kept : s.files.kept linkType ≤ safe
  within : safe ≤ length
  total : s.files.output.contents.length = length
  short : length ≤ 1024

theorem Session.Small.fits {s : Session} {safe length : ℕ} (small : s.Small safe length) :
    s.files.Fits 4096 := by
  refine ⟨fun file inside => ?_, addressable_of_short (small.total.trans_le small.short)⟩
  rw [small.earlier] at inside
  cases inside

theorem created_small : ∃ length, length ≤ 512 ∧
    (Session.create linkType).Small length length := by
  obtain ⟨-, front⟩ := newDatabase_fits
  refine ⟨_, front, rfl, rfl, rfl, max_le (Nat.zero_le _) ?_, le_rfl, rfl,
    front.trans (by decide)⟩
  rw [if_pos (show (Session.create linkType).files.earlier = [] from rfl)]
  show _ ≤ (Output.ofFile (beginBytes linkType true 0 ++ dumpEndBytes)).contents.length
  rw [Output.contents_ofFile, List.length_append]
  exact Nat.le_add_right _ _

/-- The element of a transaction that creates one node. -/
def creationBytes (id : ℕ) : Bytes :=
  frame (encodeArray (encodeArray (encodeNumber cbeNodeCreated ++
    (encodeNumber 0 ++ encodeNumber id)))) true

/-- A transaction that creates a node is committed, synchronously or not. -/
theorem creation_event {s : Session} {safe length : ℕ} (id : ℕ) (small : s.Small safe length)
    (fresh : s.world.counter < id) (fits : id < 2 ^ 64) (short : (creationBytes id).length ≤ 128)
    (room : length ≤ 768) (sync : Bool) : ∃ s' : Session,
      Event linkType 4096 s (.push s'.world.nodes :: if sync then [.sync] else []) s' ∧
      s'.world.counter = id ∧ (s'.world.nodes id).isSome ∧
      s'.Small (if sync then length + (creationBytes id).length else safe)
        (length + (creationBytes id).length) := by
  have run : Reaches (Transaction.State.step linkType) (Transaction.State.Allowed linkType)
      s.world.begin _ :=
    Reaches.start.step (l := Transaction.State.Label.create 0 id) trivial
      (if_pos ⟨by decide, fresh, fits⟩)
  set t := Transaction.State.push _ _ with ht
  have log : t.log = [.nodeAlloc 0 id] := rfl
  obtain ⟨body, found, same⟩ : ∃ body, transactionBytes (records t.log) = some body ∧
      frame body true = creationBytes id :=
    ⟨_, rfl, congrArg (fun items => frame (encodeArray items) true) (List.append_nil _)⟩
  have small_ (other : Bytes) (found' : transactionBytes (records t.log) = some other) :
      other.length < 2 ^ 63 := by
    cases found.symm.trans found'
    have payload := length_payload_le body true
    rw [same] at payload
    omega
  obtain ⟨W, stored, output⟩ :=
    (writesElements_processTransactionLog found (small_ body found)).output
  rw [same] at output
  have operation : ∃ item ∈ t.log, item.IsNodeOperation := by
    rw [log]
    exact ⟨_, List.mem_singleton_self _, trivial⟩
  have there : (t.commit.nodes id).isSome := by
    show (Function.update s.world.nodes id _ id).isSome
    rw [Function.update_self]
    rfl
  have written := bufferedWrite_open small.isOpen (creationBytes id)
  have contents : (s.files.output.bufferedWrite (creationBytes id)).contents.length =
      length + (creationBytes id).length := by
    rw [Output.contents_bufferedWrite, List.length_append, small.total]
  cases sync with
  | false =>
      refine ⟨⟨_, t.commit⟩, .commit run rfl operation stored output small_ false (bind_ok written),
        rfl, there, small.earlier, small.number, small.isOpen, ?_,
        small.within.trans (Nat.le_add_right _ _), contents, by omega⟩
      refine le_trans (le_of_eq ?_) small.kept
      rw [Files.kept, Files.kept, Output.synced_bufferedWrite]
  | true =>
      refine ⟨⟨_, t.commit⟩, .commit run rfl operation stored output small_ true
        ((bind_ok written).trans (bind_ok (bufferedSync_open small.isOpen))),
        rfl, there, small.earlier, small.number, small.isOpen, max_le ?_ ?_, le_rfl, ?_, by omega⟩
      · show (Output.bufferedSync _).synced.length ≤ _
        rw [Output.synced_bufferedSync, contents]
        exact le_rfl
      · exact (le_max_right _ _).trans
          (small.kept.trans (small.within.trans (Nat.le_add_right _ _)))
      · rw [← contents]
        exact congrArg List.length (Output.contents_bufferedSync _)

/-- The directory of a database with one data file. -/
def linkFile (file : Bytes) : Directory where
  schema := some linkType.schema.file
  files := [(1, file)]
  sorted := List.pairwise_singleton _ _

theorem linkSchema_fits : Addressable 4096 linkType.schema.file := addressable_of_short (by decide)

/-- A crash may take the last byte of the data file, if it is not on the disk. -/
theorem Session.Small.torn {s : Session} {safe length : ℕ} (small : s.Small safe length)
    (unsafe_ : safe < length) :
    s.files.Leaves linkType 4096 s.files.output.contents.dropLast
      (linkFile s.files.output.contents.dropLast) where
  schema := ⟨_, rfl, written_schema linkSchema_fits⟩
  schemaFits := linkSchema_fits
  files := by
    rw [small.earlier, small.number]
    rfl
  front := List.dropLast_prefix _
  enough := by
    have kept := small.kept
    rw [List.length_dropLast, small.total]
    omega

/-! ## What survives -/

/-- **A crash leads back to a state of the history.**  In every run the nodes follow a durable
history, and whatever a crash leaves of the data files, `load_data` succeeds and finds just the
nodes of a state that survives; nothing is lost where the whole file is there. -/
theorem crash_survives {s : Session} {changes : List (History.Change Nodes)}
    (narrow : Transaction.State.Narrow T) (life : Continues T base (Session.create T) changes s) :
    ∃ H, History.Steps (.safe emptyWorld.nodes) changes H ∧ H.current = s.world.nodes ∧
      ∀ (cut : Bytes) (directory : Directory), s.files.Leaves T base cut directory →
        ∀ readOnly create, ∃ P D, P.Survives H ∧
          loadData T base (Opening.start readOnly create directory) = .ok D ∧
          D.memory.nodes = P.current.view ∧
          (∀ order, VisitsMemory order D.memory →
            fixPointers T order (unlinked D.memory) = some P.current) ∧
          (cut = s.files.output.contents → P = H ∧ D.readOnly = readOnly) := by
  obtain ⟨H, M, steps, tracks⟩ := life.history narrow
  refine ⟨H, steps, tracks.current, fun cut directory leaves readOnly create => ?_⟩
  obtain ⟨P, D, survives, opened, loaded, fixed, whole, -⟩ :=
    tracks.reopen life.fits.2 leaves readOnly create
  exact ⟨P, D, survives, opened, loaded, fixed, whole⟩

/-- A node has been created, and the last byte of its transaction is lost. -/
theorem crash_survives_torn : ∃ (s : Session) (H P : History Nodes) (D : Opening),
    (s.world.nodes 2).isSome ∧ History.Steps (.safe emptyWorld.nodes) [.push s.world.nodes] H ∧
      P.Survives H ∧ loadData linkType 4096 (Opening.start false false
        (linkFile s.files.output.contents.dropLast)) = .ok D ∧
      D.memory.nodes = P.current.view := by
  obtain ⟨length, room, new⟩ := created_small
  obtain ⟨s, happens, -, present, small⟩ := creation_event 2 new (by decide) (by decide)
    (by decide) (by omega) false
  have long : 0 < (creationBytes 2).length := by decide
  obtain ⟨H, steps, -, crash⟩ :=
    crash_survives linkType_narrow ((Continues.now new.fits).more happens small.fits)
  obtain ⟨P, D, survives, opened, loaded, -, -⟩ :=
    crash _ _ (small.torn (Nat.lt_add_of_pos_right long)) false false
  exact ⟨s, H, P, D, present, steps, survives, opened, loaded⟩

/-! ## What was on the disk -/

theorem Event.pushed {s s' : Session} {event : List (History.Change Nodes)} {nodes : Nodes}
    (happens : Event T base s event s') (inside : .push nodes ∈ event) :
    s'.world.nodes = nodes := by
  cases happens with
  | commit run outermost operation stored output short sync handled =>
      cases sync <;> simp_all
  | readOnly run outermost empty => cases inside
  | abort run => cases inside
  | createNewFile magic handled => cases List.mem_singleton.mp inside
  | syncMe handled => cases List.mem_singleton.mp inside
  | restart leaves loaded writable visits fixed opened synced =>
      cases List.mem_singleton.mp inside

/-- Each state that a crash may lead back to was there at some time since. -/
theorem Continues.visited {s s' : Session} {changes : List (History.Change Nodes)}
    (narrow : Transaction.State.Narrow T) (life : Continues T base s changes s')
    (tracks : Session.Tracks T base s H M) (safe : ∀ nodes ∈ H.states, nodes = s.world.nodes) :
    ∃ H' M', Session.Tracks T base s' H' M' ∧ ∀ nodes ∈ H'.states, ∃ early t,
      early <+: changes ∧ Continues T base s early t ∧ t.world.nodes = nodes := by
  induction life with
  | now fits =>
      exact ⟨H, M, tracks, fun nodes inside =>
        ⟨[], s, List.prefix_rfl, .now fits, (safe nodes inside).symm⟩⟩
  | @more changes event t u before happens fits ih =>
      obtain ⟨H₁, M₁, now, visited⟩ := ih
      obtain ⟨-, H', M', steps, later⟩ := happens.tracks narrow now before.fits.2 fits
      refine ⟨H', M', later, fun nodes inside => ?_⟩
      obtain old | new := steps.mem inside
      · obtain ⟨early, v, front, reached, same⟩ := visited nodes old
        exact ⟨early, v, front.trans (List.prefix_append _ _), reached, same⟩
      · exact ⟨_, u, List.prefix_rfl, before.more happens fits, happens.pushed new⟩

/-- **What was on the disk is not lost.**  Everything is on the disk in the session `s`.  Whatever
happens then, after any crash `load_data` finds the nodes as they were in `s`, or at some later time
between two transactions. -/
theorem synced_kept {s s' : Session} {before changes : List (History.Change Nodes)}
    (narrow : Transaction.State.Narrow T)
    (life : Continues T base (Session.create T) (before ++ [.sync]) s)
    (later : Continues T base s changes s') {cut : Bytes} {directory : Directory}
    (leaves : s'.files.Leaves T base cut directory) (readOnly create : Bool) :
    ∃ D early t, loadData T base (Opening.start readOnly create directory) = .ok D ∧
      early <+: changes ∧ Continues T base s early t ∧ D.memory.nodes = t.world.nodes.view ∧
      ∀ order, VisitsMemory order D.memory →
        fixPointers T order (unlinked D.memory) = some t.world.nodes := by
  obtain ⟨H, M, steps, tracks⟩ := life.history narrow
  obtain ⟨_, _, last⟩ := steps.last
  have safe (nodes : Nodes) (inside : nodes ∈ H.states) : nodes = s.world.nodes :=
    (last.synced inside).trans tracks.current
  obtain ⟨H', M', now, visited⟩ := later.visited narrow tracks safe
  obtain ⟨P, D, survives, opened, loaded, fixed, -, -⟩ :=
    now.reopen later.fits.2 leaves readOnly create
  obtain ⟨early, t, front, reached, same⟩ := visited _ (survives.subset P.current_mem)
  rw [← same] at loaded fixed
  exact ⟨D, early, t, opened, front, reached, loaded, fixed⟩

/-- The creation of a node was synced, and the last byte of that of another one is lost. -/
theorem synced_kept_torn : ∃ (s s' : Session) (D : Opening) (early : List (History.Change Nodes))
    (t : Session), (s.world.nodes 2).isSome ∧ (s'.world.nodes 3).isSome ∧
    loadData linkType 4096 (Opening.start false false
      (linkFile s'.files.output.contents.dropLast)) = .ok D ∧
      early <+: [.push s'.world.nodes] ∧ Continues linkType 4096 s early t ∧
      D.memory.nodes = t.world.nodes.view := by
  obtain ⟨length, room, new⟩ := created_small
  obtain ⟨s, happens, counter, present, small⟩ := creation_event 2 new (by decide)
    (by decide) (by decide) (by omega) true
  have element : (creationBytes 2).length ≤ 128 := by decide
  obtain ⟨s', later, -, present', small'⟩ := creation_event 3 small
    (counter.trans_lt (by decide)) (by decide) (by decide) (by omega) false
  have long : 0 < (creationBytes 3).length := by decide
  obtain ⟨D, early, t, opened, front, reached, loaded, -⟩ :=
    synced_kept linkType_narrow
      (show Continues _ _ _ ([.push s.world.nodes] ++ [.sync]) _ from
        (Continues.now new.fits).more happens small.fits)
      ((Continues.now small.fits).more later small'.fits)
      (small'.torn (Nat.lt_add_of_pos_right long)) false false
  exact ⟨s, s', D, early, t, present, present', opened, front, reached, loaded⟩

/-! ## What was not on the disk -/

/-- **The footer of a closed file may be lost.**  `_database_new_file` closes a file without
`fsync`.  Where a crash takes a part of its footer, `load_data` opens the database read-only with
the nodes of the time when the file was closed, whatever was committed since. -/
theorem footer_lost {s s' : Session} {before changes : List (History.Change Nodes)}
    {answer : Option DbError} {F : Files} {magic : Magic} (narrow : Transaction.State.Narrow T)
    (life : Continues T base (Session.create T) before s)
    (closed : serviceJob T (.createNewFile magic.number true) s.files = .ok answer F)
    (later : Continues T base ⟨F, s.world⟩ changes s') {tail lost : Bytes} {directory : Directory}
    (torn : footerBytes magic.number = tail ++ lost) (some_ : lost ≠ [])
    (schema : ∃ schema, directory.schema = some schema ∧ written (writeSchema T) = .ok schema)
    (schemaFits : Addressable base T.schema.file)
    (files : directory.files = s.files.earlier ++
      (s.files.number, s.files.output.contents ++ tail) :: s'.files.all.drop F.earlier.length)
    (readOnly create : Bool) :
    ∃ D, loadData T base (Opening.start readOnly create directory) = .ok D ∧ D.readOnly = true ∧
      D.memory.nodes = s.world.nodes.view ∧
      ∀ order, VisitsMemory order D.memory →
        fixPointers T order (unlinked D.memory) = some s.world.nodes := by
  obtain ⟨H, M, steps, tracks⟩ := life.history narrow
  have isOpen := tracks.recorded.isOpen
  have created := life.more (.createNewFile magic closed) later.fits.1
  obtain ⟨_, _, -, now⟩ := created.history narrow
  obtain ⟨⟨rest, earlier⟩, _, _, -, after⟩ := later.tracks narrow now
  have fits := later.fits.1
  cases closed.symm.trans (serviceNewFile_open T isOpen false magic.number true)
  have written := Output.written_bufferedSync s.files.output
  have grown : Addressable base (s.files.output.contents ++ footerBytes magic.number) := by
    rw [← written]
    exact fits.1 _ (List.mem_append_right _ (List.mem_singleton_self _))
  have behind : s'.files.all.drop (s.files.earlier ++ [(s.files.number,
      s.files.output.bufferedSync.written ++ footerBytes magic.number)]).length =
      rest ++ [(s'.files.number, s'.files.output.written)] := by
    rw [Files.all, ← earlier, List.append_assoc]
    exact List.drop_left
  have parts : directory.files = s.files.earlier ++ (s.files.number,
      s.files.output.contents ++ tail) :: (rest ++ [(s'.files.number, s'.files.output.written)]) :=
    files.trans (congrArg (fun files => s.files.earlier ++ _ :: files) behind)
  have numbers : directory.files.map Prod.fst = List.range' 1 (s'.files.earlier.length + 1) := by
    rw [← after.recorded.numbers_concat s'.files.output.written, ← earlier, parts]
    simp [Files.close, Files.startFile, Files.all]
  have chain : loadFiles T base true Memory.empty directory.files = .ok (M, .readOnly) := by
    rw [parts]
    exact tracks.recorded.load_torn grown torn some_
      (List.append_ne_nil_of_right_ne_nil _ (List.cons_ne_nil _ _))
  rw [← List.cons_append, ← List.append_assoc] at parts
  obtain ⟨bytes, present, stored⟩ := schema
  obtain ⟨D, opened, memory, -, flag, -⟩ := loadData_last present
    (schemaAccepted_written stored schemaFits) parts (noHoles_of_numbers numbers) chain (by decide)
    readOnly create
  have loaded : M.nodes = s.world.nodes.view := by
    rw [← tracks.current]
    exact tracks.recorded.loaded
  subst memory
  refine ⟨D, opened, ?_, loaded, fun order visits => ?_⟩
  · rw [flag]
    exact Bool.or_true _
  · refine fixPointers_unlinked tracks.sound loaded ⟨visits.1, fun id => ?_⟩
    rw [visits.2 id, loaded, isSome_view]

/-- The directory of a database whose first file was closed. -/
def linkFiles (first second : Bytes) : Directory where
  schema := some linkType.schema.file
  files := [(1, first), (2, second)]
  sorted := List.pairwise_pair.mpr (show 1 < 2 by decide)

/-- Of the footer of the first file five bytes are left. -/
theorem footer_lost_new : ∃ (D : Opening),
    loadData linkType 4096 (Opening.start false false
      (linkFiles ((newDatabase linkType).output.contents ++ (footerBytes 7).take 5)
        (beginBytes linkType false 7))) = .ok D ∧ D.readOnly = true := by
  obtain ⟨fits, front⟩ := newDatabase_fits
  have closed := serviceNewFile_open (F := newDatabase linkType) linkType rfl false 7 true
  have after : Files.Fits 4096 (Files.startFile (beginBytes linkType false 7)
      (Files.close 7 { newDatabase linkType with
        output := (newDatabase linkType).output.bufferedSync })) := by
    refine ⟨fun file inside => addressable_of_short ?_, addressable_of_short ?_⟩
    · rw [List.mem_singleton.mp inside]
      show ((newDatabase linkType).output.bufferedSync.written ++ footerBytes 7).length ≤ 1024
      rw [List.length_append]
      have footer : (footerBytes 7).length ≤ 64 := by decide
      rw [Output.written_bufferedSync]
      omega
    · decide
  obtain ⟨D, opened, readOnly, -⟩ := footer_lost linkType_narrow (.now fits)
    (show serviceJob linkType
      (.createNewFile (Magic.mk 7 (by decide) (by decide)).number true) _ = _ from closed)
    (.now after) (List.take_append_drop 5 (footerBytes 7)).symm (by decide)
    (show ∃ schema, (linkFiles _ (beginBytes linkType false 7)).schema = some schema ∧ _ from
      ⟨_, rfl, written_schema linkSchema_fits⟩) linkSchema_fits rfl false false
  exact ⟨D, opened, readOnly⟩

end HybridDatabase.Service
