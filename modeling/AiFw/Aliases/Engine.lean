import AiFw.Geo.Index
import AiFw.Lib.Runs
import AiFw.Lib.Table
import AiFw.Pf.NatColumns
import AiFw.Wan.Instance

namespace AiFw.Aliases
open AiFw.Lib AiFw.Net AiFw.Wan

set_option autoImplicit true

inductive AliasType where
  | host
  | network
  | port
  | urlTable
deriving DecidableEq, Repr

/-- A named alias, as its row reads back; the times are kept as their texts. -/
structure Alias where
  id : Uuid
  name : List Char
  aliasType : AliasType
  entries : List (List Char)
  description : Option (List Char)
  enabled : Bool
  createdAt : List Char
  updatedAt : List Char

/-- The operations an alias call makes on the tables of pf. -/
inductive PfOp where
  | flushTable (table : List Char)
  | addTableEntry (table : List Char) (addr : IpAddr)
deriving DecidableEq, Repr

def PfOp.table : PfOp → List Char
  | .flushTable table => table
  | .addTableEntry table _ => table

abbrev PfTables := KeyedMap (List Char) (List IpAddr)

def PfTables.entries (tables : PfTables) (table : List Char) : List IpAddr :=
  (tables.lookup table).getD []

def PfOp.run (tables : PfTables) : PfOp → PfTables
  | .flushTable table => tables.erase table
  | .addTableEntry table addr =>
    let entries := PfTables.entries tables table
    tables.insert table (if addr ∈ entries then entries else entries ++ [addr])

def reservedNames : List (List Char) := ["bruteforce".toList, "ai_blocked".toList]

def validateName (name : List Char) : Except AifwError Unit :=
  if name = [] ∨ Pf.byteLen name > 31 then
    .error (.validation "Alias name must be 1-31 characters".toList)
  else if !name.all fun c => c.isAlphanum || c == '_' || c == '-' then
    .error (.validation "Alias name must be alphanumeric (with _ and -)".toList)
  else if reservedNames.contains name then
    .error (.validation ("Name '".toList ++ name ++ "' is reserved".toList))
  else .ok ()

/-- The address that an entry of a host or network alias adds; a prefix length is dropped. -/
def entryAddress (entry : List Char) : Option IpAddr :=
  let entry := trim entry
  if entry = [] then none
  else
    match splitOnce '/' entry with
    | some (ip, _) => IpAddr.parse ip
    | none => IpAddr.parse entry

def lineAddress (line : List Char) : Option IpAddr :=
  let line := trim line
  if line = [] ∨ line.head? = some '#' then none
  else IpAddr.parse (line.takeWhile fun c => !isWhitespace c)

/-- The body of a URL, or `none` where the URL is refused or the fetch fails. -/
abbrev Fetch := List Char → Option (List Char)

def fetched (fetch : Fetch) (urls : List (List Char)) : List IpAddr :=
  urls.flatMap fun url =>
    match fetch (trim url) with
    | some body => (Geo.lines body).filterMap lineAddress
    | none => []

def Alias.addresses (fetch : Fetch) (a : Alias) : List IpAddr :=
  match a.aliasType with
  | .host | .network => a.entries.filterMap entryAddress
  | .urlTable => fetched fetch a.entries
  | .port => []

def syncToPf (fetch : Fetch) (a : Alias) : List PfOp :=
  (a.addresses fetch).map (.addTableEntry a.name)

def syncIfEnabled (fetch : Fetch) (a : Alias) : List PfOp :=
  if a.enabled then syncToPf fetch a else []

/-- The rows after a call, the operations it has made on pf and what it returns. -/
abbrev Outcome (α : Type) := List Alias × List PfOp × Except AifwError α

def list (rows : List Alias) : List Alias := rows.mergeSort fun a b => !decide (b.name < a.name)

def notFoundError (id : Uuid) : AifwError :=
  .notFound ("alias ".toList ++ displayUuid id ++ " not found".toList)

def get (rows : List Alias) (id : Uuid) : Except AifwError Alias :=
  match (list rows).find? fun a => a.id = id with
  | some a => .ok a
  | none => .error (notFoundError id)

/-- The primary key and the unique name refuse the row. -/
def add (fetch : Fetch) (rows : List Alias) (a : Alias) : Outcome Alias :=
  match validateName a.name with
  | .error e => (rows, [], .error e)
  | .ok () =>
    if hasKey Alias.id a.id rows || hasKey Alias.name a.name rows then (rows, [], .error .database)
    else (rows ++ [a], syncIfEnabled fetch a, .ok a)

def updateRow (now : List Char) (a r : Alias) : Alias :=
  if r.id = a.id then { a with createdAt := r.createdAt, updatedAt := now } else r

/-- Another row has the name already. -/
def taken (rows : List Alias) (a : Alias) : Bool :=
  rows.any fun r => r.id ≠ a.id && r.name = a.name

/-- The table of the new name is flushed, whatever the old name was. -/
def update (fetch : Fetch) (now : List Char) (rows : List Alias) (a : Alias) : Outcome Alias :=
  match validateName a.name with
  | .error e => (rows, [], .error e)
  | .ok () =>
    if hasKey Alias.id a.id rows = false then (rows, [], .error (notFoundError a.id))
    else if taken rows a then (rows, [], .error .database)
    else (rows.map (updateRow now a), .flushTable a.name :: syncIfEnabled fetch a, .ok a)

def delete (rows : List Alias) (id : Uuid) : Outcome Unit :=
  match get rows id with
  | .error e => (rows, [], .error e)
  | .ok a => (dropKey Alias.id id rows, [.flushTable a.name], .ok ())

def resync (fetch : Fetch) (a : Alias) : List PfOp :=
  if a.enabled then .flushTable a.name :: syncToPf fetch a else []

def syncAll (fetch : Fetch) (rows : List Alias) : Outcome Unit :=
  (rows, (list rows).flatMap (resync fetch), .ok ())

/-- The `aliases` table and the tables of pf. -/
structure AliasEngine where
  rows : List Alias
  tables : PfTables

inductive Op where
  | add (fetch : Fetch) (a : Alias)
  | update (fetch : Fetch) (now : List Char) (a : Alias)
  | delete (id : Uuid)
  | syncAll (fetch : Fetch)

namespace AliasEngine

def empty : AliasEngine := ⟨[], ∅⟩

def call (s : AliasEngine) : Op → List Alias × List PfOp
  | .add fetch a => ((add fetch s.rows a).1, (add fetch s.rows a).2.1)
  | .update fetch now a => ((update fetch now s.rows a).1, (update fetch now s.rows a).2.1)
  | .delete id => ((delete s.rows id).1, (delete s.rows id).2.1)
  | .syncAll fetch => ((syncAll fetch s.rows).1, (syncAll fetch s.rows).2.1)

def step (s : AliasEngine) (op : Op) : AliasEngine :=
  ⟨(s.call op).1, (s.call op).2.foldl PfOp.run s.tables⟩

end AliasEngine

/-- The call is carried out: the name is a valid one that no other row has. -/
def Inserts (rows : List Alias) (a : Alias) : Prop :=
  validateName a.name = .ok () ∧ hasKey Alias.id a.id rows = false ∧
    hasKey Alias.name a.name rows = false

def Updates (rows : List Alias) (a : Alias) : Prop :=
  validateName a.name = .ok () ∧ hasKey Alias.id a.id rows = true ∧ taken rows a = false

theorem add_cases (fetch : Fetch) (rows : List Alias) (a : Alias) :
    Inserts rows a ∧ add fetch rows a = (rows ++ [a], syncIfEnabled fetch a, .ok a) ∨
      ¬Inserts rows a ∧ ∃ e, add fetch rows a = (rows, [], .error e) := by
  unfold add Inserts
  cases hname : validateName a.name with
  | error e => exact .inr ⟨(fun h => nomatch h.1), e, rfl⟩
  | ok =>
    by_cases hused : (hasKey Alias.id a.id rows || hasKey Alias.name a.name rows) = true
    · refine .inr ⟨?_, .database, if_pos hused⟩
      intro h
      rw [h.2.1, h.2.2] at hused
      cases hused
    · have hfree := Bool.or_eq_false_iff.mp (Bool.not_eq_true _ ▸ hused)
      exact .inl ⟨⟨rfl, hfree⟩, if_neg hused⟩

theorem update_cases (fetch : Fetch) (now : List Char) (rows : List Alias) (a : Alias) :
    Updates rows a ∧ update fetch now rows a =
        (rows.map (updateRow now a), .flushTable a.name :: syncIfEnabled fetch a, .ok a) ∨
      ¬Updates rows a ∧ ∃ e, update fetch now rows a = (rows, [], .error e) := by
  unfold update Updates
  cases hname : validateName a.name with
  | error e => exact .inr ⟨(fun h => nomatch h.1), e, rfl⟩
  | ok =>
    cases hid : hasKey Alias.id a.id rows with
    | false => exact .inr ⟨(fun h => nomatch h.2.1), _, rfl⟩
    | true =>
      cases htaken : taken rows a with
      | true => exact .inr ⟨(fun h => nomatch h.2.2), _, rfl⟩
      | false => exact .inl ⟨⟨rfl, rfl, rfl⟩, rfl⟩

theorem mem_list {rows : List Alias} : a ∈ list rows ↔ a ∈ rows := List.mem_mergeSort

theorem delete_cases (rows : List Alias) (id : Uuid) :
    (∃ a ∈ rows, a.id = id ∧
        delete rows id = (dropKey Alias.id id rows, [.flushTable a.name], .ok ())) ∨
      (∀ a ∈ rows, a.id ≠ id) ∧ ∃ e, delete rows id = (rows, [], .error e) := by
  unfold delete get
  cases hfind : (list rows).find? fun a => a.id = id with
  | none =>
    refine .inr ⟨?_, _, rfl⟩
    intro a ha hid
    exact List.find?_eq_none.mp hfind a (mem_list.mpr ha) (decide_eq_true hid)
  | some a =>
    have hid : a.id = id := by simpa only [decide_eq_true_eq] using List.find?_some hfind
    exact .inl ⟨a, mem_list.mp (List.mem_of_find?_eq_some hfind), hid, rfl⟩

theorem updateRow_id (now : List Char) (a r : Alias) : (updateRow now a r).id = r.id := by
  unfold updateRow
  split
  · next h => exact h.symm
  · rfl

theorem update_ids {rows : List Alias} (h : Keyed Alias.id rows) (now : List Char) (a : Alias) :
    Keyed Alias.id (rows.map (updateRow now a)) := by
  intro r hr r' hr' he
  obtain ⟨b, hb, rfl⟩ := List.mem_map.mp hr
  obtain ⟨b', hb', rfl⟩ := List.mem_map.mp hr'
  rw [updateRow_id, updateRow_id] at he
  rw [h b hb b' hb' he]

theorem entries_flush (tables : PfTables) (t n : List Char) :
    x ∈ PfTables.entries (PfOp.run tables (.flushTable t)) n ↔
      n ≠ t ∧ x ∈ PfTables.entries tables n := by
  unfold PfTables.entries PfOp.run
  by_cases hn : n = t
  · subst hn
    rw [AList.lookup_erase]
    exact iff_of_false List.not_mem_nil fun h => h.1 rfl
  · rw [AList.lookup_erase_ne hn]
    exact (and_iff_right hn).symm

theorem entries_add (tables : PfTables) (t n : List Char) (addr : IpAddr) :
    x ∈ PfTables.entries (PfOp.run tables (.addTableEntry t addr)) n ↔
      x ∈ PfTables.entries tables n ∨ n = t ∧ x = addr := by
  by_cases hn : n = t
  · subst hn
    have hlookup : PfTables.entries (PfOp.run tables (.addTableEntry n addr)) n =
        if addr ∈ PfTables.entries tables n then PfTables.entries tables n
        else PfTables.entries tables n ++ [addr] := by
      rw [PfTables.entries, PfOp.run, AList.lookup_insert]
      rfl
    rw [hlookup]
    by_cases hin : addr ∈ PfTables.entries tables n
    · rw [if_pos hin]
      constructor
      · exact .inl
      · intro h
        obtain h | ⟨-, rfl⟩ := h
        · exact h
        · exact hin
    · rw [if_neg hin, List.mem_append, List.mem_singleton, and_iff_right rfl]
  · have hlookup : PfTables.entries (PfOp.run tables (.addTableEntry t addr)) n =
        PfTables.entries tables n := by
      rw [PfTables.entries, PfOp.run, AList.lookup_insert_ne hn]
      rfl
    rw [hlookup, or_iff_left fun h => hn h.1]

theorem entries_adds (tables : PfTables) (t n : List Char) (addrs : List IpAddr) :
    x ∈ PfTables.entries ((addrs.map (PfOp.addTableEntry t)).foldl PfOp.run tables) n ↔
      x ∈ PfTables.entries tables n ∨ n = t ∧ x ∈ addrs := by
  induction addrs generalizing tables with
  | nil =>
    rw [List.map_nil, List.foldl_nil]
    exact (or_iff_left fun h => List.not_mem_nil h.2).symm
  | cons addr addrs ih =>
    rw [List.map_cons, List.foldl_cons, ih, entries_add, or_assoc, ← and_or_left, List.mem_cons]

/-- What an enabled alias loads. -/
def Alias.pushed (fetch : Fetch) (a : Alias) : List IpAddr :=
  if a.enabled then a.addresses fetch else []

theorem entries_sync (tables : PfTables) (fetch : Fetch) (a : Alias) :
    x ∈ PfTables.entries ((syncIfEnabled fetch a).foldl PfOp.run tables) n ↔
      x ∈ PfTables.entries tables n ∨ n = a.name ∧ x ∈ a.pushed fetch := by
  unfold syncIfEnabled Alias.pushed
  split
  · exact entries_adds tables a.name n (a.addresses fetch)
  · exact (or_iff_left fun h => List.not_mem_nil h.2).symm

theorem entries_flush_sync (tables : PfTables) (fetch : Fetch) (a : Alias) :
    x ∈ PfTables.entries ((.flushTable a.name :: syncIfEnabled fetch a).foldl PfOp.run tables) n ↔
      n ≠ a.name ∧ x ∈ PfTables.entries tables n ∨ n = a.name ∧ x ∈ a.pushed fetch := by
  rw [List.foldl_cons, entries_sync, entries_flush]

theorem entries_resync (tables : PfTables) (fetch : Fetch) (a : Alias) :
    x ∈ PfTables.entries ((resync fetch a).foldl PfOp.run tables) n ↔
      ¬(a.enabled = true ∧ n = a.name) ∧ x ∈ PfTables.entries tables n ∨
        (a.enabled = true ∧ n = a.name) ∧ x ∈ a.addresses fetch := by
  unfold resync
  cases he : a.enabled with
  | true =>
    rw [if_pos rfl, List.foldl_cons, syncToPf, entries_adds, entries_flush, and_iff_right rfl]
  | false =>
    rw [if_neg Bool.false_ne_true, List.foldl_nil]
    have hoff : ¬(false = true ∧ n = a.name) := fun h => Bool.false_ne_true h.1
    rw [and_iff_right hoff, or_iff_left fun h => hoff h.1]

/-- Aliases that are synced one after the other, with a name each. -/
theorem entries_syncAll {aliases : List Alias} (hk : Keyed Alias.name aliases) (fetch : Fetch)
    (tables : PfTables) :
    x ∈ PfTables.entries ((aliases.flatMap (resync fetch)).foldl PfOp.run tables) n ↔
      (∀ a ∈ aliases, ¬(a.enabled = true ∧ n = a.name)) ∧ x ∈ PfTables.entries tables n ∨
        ∃ a ∈ aliases, (a.enabled = true ∧ n = a.name) ∧ x ∈ a.addresses fetch := by
  induction aliases generalizing tables with
  | nil =>
    rw [List.flatMap_nil, List.foldl_nil]
    constructor
    · intro h
      refine .inl ⟨?_, h⟩
      intro a ha
      cases ha
    · intro h
      obtain h | ⟨a, ha, -⟩ := h
      · exact h.2
      · cases ha
  | cons b aliases ih =>
    have hrest : Keyed Alias.name aliases := hk.sublist fun r hr => List.mem_cons_of_mem b hr
    rw [List.flatMap_cons, List.foldl_append, ih hrest, entries_resync, List.exists_mem_cons_iff,
      List.forall_mem_cons]
    by_cases hb : b.enabled = true ∧ n = b.name
    · -- a later alias of the name is the same one
      have hlater : ∀ a ∈ aliases, a.enabled = true ∧ n = a.name → a = b := by
        intro a ha hn
        exact hk a (List.mem_cons_of_mem b ha) b List.mem_cons_self (hn.2.symm.trans hb.2)
      constructor
      · intro h
        obtain ⟨-, h⟩ | h := h
        · obtain h | h := h
          · exact absurd hb h.1
          · exact .inr (.inl h)
        · exact .inr (.inr h)
      · intro h
        obtain ⟨h, -⟩ | h | h := h
        · exact absurd hb h.1
        · by_cases hany : ∃ a ∈ aliases, a.enabled = true ∧ n = a.name
          · obtain ⟨a, ha, hn⟩ := hany
            rw [hlater a ha hn] at ha
            exact .inr ⟨b, ha, h⟩
          · refine .inl ⟨?_, .inr h⟩
            intro a ha hn
            exact hany ⟨a, ha, hn⟩
        · exact .inr h
    · simp only [hb, not_false_eq_true, true_and, false_and, or_false, false_or]

/-- The address an entry is, where it is a single one. -/
def singleAddress (entry : List Char) : Option IpAddr := IpAddr.parse (trim entry)

/-- A host or network alias whose entries are single addresses. -/
def Alias.SingleAddresses (a : Alias) : Prop :=
  a.aliasType = .host ∨ a.aliasType = .network →
    ∀ entry ∈ a.entries, (singleAddress entry).isSome = true

/-- The addresses that the table of the alias is to hold. -/
def Alias.held (a : Alias) : List IpAddr :=
  if a.enabled = true ∧ (a.aliasType = .host ∨ a.aliasType = .network) then
    a.entries.filterMap singleAddress
  else []

theorem entryAddress_single (h : (singleAddress entry).isSome = true) :
    entryAddress entry = singleAddress entry := by
  obtain ⟨ip, hip⟩ := Option.isSome_iff_exists.mp h
  have hparse : IpAddr.parse (trim entry) = some ip := hip
  have hslash : '/' ∉ trim entry := by
    intro hmem
    exact absurd (IpAddr.parse_chars hparse '/' hmem) (by decide)
  unfold entryAddress singleAddress
  rw [if_neg (IpAddr.parse_ne_nil hparse), splitOnce_none hslash]

theorem Alias.SingleAddresses.filterMap {a : Alias} (h : a.SingleAddresses)
    (ht : a.aliasType = .host ∨ a.aliasType = .network) :
    a.entries.filterMap entryAddress = a.entries.filterMap singleAddress := by
  apply List.filterMap_congr
  intro entry hentry
  exact entryAddress_single (h ht entry hentry)

/-- A URL table loads no address. -/
def Alias.LoadsNoUrl (fetch : Fetch) (a : Alias) : Prop :=
  a.enabled = true → a.aliasType = .urlTable → fetched fetch a.entries = []

theorem Alias.LoadsNoUrl.of_host {a : Alias} (h : a.aliasType = .host) (fetch : Fetch) :
    a.LoadsNoUrl fetch := by
  intro _ ht
  rw [h] at ht
  cases ht

theorem Alias.SingleAddresses.pushed {a : Alias} (h : a.SingleAddresses) (fetch : Fetch) :
    (∀ x, x ∈ a.pushed fetch ↔ x ∈ a.held) ↔ a.LoadsNoUrl fetch := by
  unfold Alias.pushed Alias.held Alias.LoadsNoUrl
  cases he : a.enabled with
  | false => exact iff_of_true (fun x => Iff.rfl) fun h => absurd h Bool.false_ne_true
  | true =>
    simp only [if_true, true_and, forall_const, Alias.addresses]
    cases ht : a.aliasType with
    | host =>
      rw [if_pos (.inl rfl)]
      simp only [h.filterMap (.inl ht), implies_true, reduceCtorEq, false_implies]
    | network =>
      rw [if_pos (.inr rfl)]
      simp only [h.filterMap (.inr ht), implies_true, reduceCtorEq, false_implies]
    | port => simp only [reduceCtorEq, or_self, if_false, implies_true, false_implies]
    | urlTable =>
      simp only [reduceCtorEq, or_self, if_false, List.not_mem_nil, iff_false, forall_const]
      exact List.eq_nil_iff_forall_not_mem.symm

end AiFw.Aliases
