import DataForge.Documents.Json
import DataForge.Patterns.Like
import Mathlib.Data.List.Sort

/-!
# Cleanup intents of catalog tables

The intents that a cleanup of catalog tables looks up
(`src/packages/backend/backend_core/storage_cleanup_service.py`): by columns of the outbox rows in
SQL, and by their payloads in Python.
-/

namespace DataForge.Storage

open Documents Patterns

variable {ν : Type}

/-- `STORAGE_CLEANUP_KIND`. -/
def storageCleanupKind : String := "storage_cleanup"

/-- The outbox row of an intent (`persistence/runtime_events/models.py:34-43`), as far as the
lookup reads it. -/
structure Event (ν : Type) where
  id : String
  kind : String
  catalogNamespace : Option String
  catalogTable : Option String
  catalogFamilyPrefix : Option String
  payload : Fields ν

/-- A value that is a string. -/
def str? : Json ν → Option String
  | .str s => some s
  | _ => none

/-- The string under a key. -/
def text (payload : Fields ν) (key : String) : Option String := (payload.get? key).bind str?

/-! ## Looking intents up -/

/-- `_table_family_prefixes` (lines 397-398). -/
def tableFamilyPrefixes (table : String) : List String :=
  (List.range table.toList.length).filterMap fun i =>
    if table.toList[i]? = some '_' then some (String.ofList (table.toList.take (i + 1))) else none

/-- `s.replace(c, '/' + c)`. -/
def replaced (c : Char) (s : List Char) : List Char :=
  s.flatMap fun x => if x = c then ['/', c] else [x]

/-- `escaped_prefix` (line 413). -/
def escapedPrefix (familyPrefix : String) : List Char :=
  replaced '_' (replaced '%' (replaced '/' familyPrefix.toList))

/-- The letters of `LIKE … ESCAPE '/'`. -/
def likeWildcards : Wildcards Char where
  escape := '/'
  one := '_'
  any := '%'

/-- The condition of the statement (lines 408-421). -/
def selects (ns table : String) (familyPrefix : Option String) (e : Event ν) : Bool :=
  e.kind = storageCleanupKind && e.catalogNamespace = some ns &&
    (e.catalogTable = some table ||
      e.catalogFamilyPrefix.any (· ∈ tableFamilyPrefixes table) ||
      familyPrefix.any fun p => e.catalogTable.any fun t =>
        likeWildcards.like (escapedPrefix p ++ ['%']) t.toList)

/-- `_catalog_intents` (lines 401-425). -/
def catalogIntents (events : List (Event ν)) (ns table : String) (familyPrefix : Option String) :
    List (Event ν) :=
  (events.filter (selects ns table familyPrefix)).mergeSort fun a b => a.id ≤ b.id

/-- An intent names a table, or the family that it belongs to (lines 429-432). -/
def matchesTable (catalogTable catalogFamilyPrefix : Option String) (table : String) : Bool :=
  catalogTable = some table ||
    catalogFamilyPrefix.any fun familyPrefix => familyPrefix.toList.isPrefixOf table.toList

/-- `_intent_matches_catalog_table` (lines 428-432). -/
def intentMatchesCatalogTable (payload : Fields ν) (table : String) : Bool :=
  matchesTable (text payload "catalog_table") (text payload "catalog_family_prefix") table

/-! ## Storing intents -/

/-- A value as a condition; `zero` tells the number zero. -/
def truthy (zero : ν → Bool) : Json ν → Bool
  | .null => false
  | .bool b => b
  | .int n => n ≠ 0
  | .float x => !zero x
  | .str s => s ≠ ""
  | .arr items => !items.isEmpty
  | .obj entries => !entries.isEmpty

/-- The catalog table of an intent (lines 159-171). -/
structure CatalogIdentity where
  catalogIdentifier : String
  catalogType : String
  catalogUri : String
  warehouse : String
  catalogNamespace : String
  catalogTable : String
  catalogFamilyPrefix : Option String := none
  deriving DecidableEq, Repr

/-- The entries of the payload. -/
def CatalogIdentity.fields (c : CatalogIdentity) : Fields ν :=
  [("catalog_identifier", .str c.catalogIdentifier), ("catalog_type", .str c.catalogType),
    ("catalog_uri", .str c.catalogUri), ("warehouse", .str c.warehouse),
    ("catalog_namespace", .str c.catalogNamespace), ("catalog_table", .str c.catalogTable)] ++
  (c.catalogFamilyPrefix.map fun p => ("catalog_family_prefix", .str p)).toList

/-- `_catalog_cleanup_identity` (lines 136-172) of a configuration with some strings, which has a
true `catalog_uri` or not; `none` when there is no catalog table. -/
def identityOf (databaseUrl : String) (str? : String → Option String) (hasUri : Bool)
    (datasourceId : String) : Except String (Option CatalogIdentity) :=
  let named (key : String) := (str? key).filter (· ≠ "")
  match named "namespace", named "table" with
  | some ns, some table =>
    let catalogUri :=
      if str? "catalog_type" = some "sql" ∧ hasUri = false then some databaseUrl
      else str? "catalog_uri"
    match named "catalog_type", catalogUri.filter (· ≠ ""), named "warehouse" with
    | some catalogType, some catalogUri, some warehouse =>
      .ok (some
        { catalogIdentifier := ns ++ "." ++ table, catalogType, catalogUri, warehouse,
          catalogNamespace := ns, catalogTable := table,
          catalogFamilyPrefix :=
            if table = datasourceId ∨ (datasourceId ++ "_").toList <+: table.toList then
              some (datasourceId ++ "_")
            else none })
    | _, _, _ => .error "Iceberg cleanup requires a complete catalog type, URI, and warehouse"
  | _, _ => .ok none

/-- `_catalog_cleanup_identity` (lines 136-172). -/
def catalogCleanupIdentity (zero : ν → Bool) (databaseUrl : String) (config : Fields ν)
    (datasourceId : String) : Except String (Fields ν) :=
  (identityOf databaseUrl (text config) ((config.get? "catalog_uri").any (truthy zero))
    datasourceId).map fun identity => identity.elim [] CatalogIdentity.fields

/-- The row that `_enqueue` (lines 103-133) adds for a payload. -/
def newEvent (id url : String) (payload : Fields ν) : Event ν where
  id
  kind := storageCleanupKind
  catalogNamespace := text payload "catalog_namespace"
  catalogTable := text payload "catalog_table"
  catalogFamilyPrefix := text payload "catalog_family_prefix"
  payload := (payload.put ("url", .str url)).put ("phase", .str "tracked")

/-- The row that `_enqueue_datasource_target` (lines 228-243) leaves of one that is not yet
authorized: another payload. -/
def retarget (e : Event ν) (url : String) (payload : Fields ν) : Event ν :=
  { e with payload := (payload.put ("url", .str url)).put ("phase", .str "tracked") }

/-! ## When an intent is found -/

/-- A family prefix ends in an underscore. -/
def Family (familyPrefix : String) : Prop := familyPrefix.toList.getLast? = some '_'

/-- The lookup finds an intent whenever its payload matches the table. -/
def Findable (e : Event ν) : Prop :=
  ∀ events, e ∈ events → ∀ ns, text e.payload "catalog_namespace" = some ns →
    ∀ table familyPrefix, intentMatchesCatalogTable e.payload table = true →
      e ∈ catalogIntents events ns table familyPrefix

/-- The columns cover a table: by its name, or by a family that it belongs to. -/
def Covers (e : Event ν) (table : String) : Prop :=
  e.catalogTable = some table ∨
    ∃ g, e.catalogFamilyPrefix = some g ∧ Family g ∧ g.toList <+: table.toList

/-- The columns carry the catalog identity of the payload. -/
structure Indexed (e : Event ν) : Prop where
  table : ∀ ns, text e.payload "catalog_namespace" = some ns →
    ∀ table, text e.payload "catalog_table" = some table →
      e.catalogNamespace = some ns ∧ Covers e table
  family : ∀ ns, text e.payload "catalog_namespace" = some ns →
    ∀ f, text e.payload "catalog_family_prefix" = some f →
      e.catalogNamespace = some ns ∧
        ∃ g, e.catalogFamilyPrefix = some g ∧ Family g ∧ g.toList <+: f.toList

/-- The family prefixes of a table are its prefixes that end in an underscore. -/
theorem mem_tableFamilyPrefixes {table p : String} :
    p ∈ tableFamilyPrefixes table ↔ p.toList <+: table.toList ∧ Family p := by
  unfold tableFamilyPrefixes Family
  rw [List.mem_filterMap]
  constructor
  · rintro ⟨i, -, hi⟩
    split at hi
    · next hc =>
      obtain rfl := Option.some_inj.mp hi
      rw [String.toList_ofList]
      refine ⟨List.take_prefix _ _, ?_⟩
      rw [List.take_add_one, hc, Option.toList_some, List.getLast?_concat]
    · cases hi
  · rintro ⟨hstem, hlast⟩
    obtain ⟨l, hl⟩ := List.getLast?_eq_some_iff.mp hlast
    obtain ⟨tail, htail⟩ := hstem
    rw [hl, List.append_assoc] at htail
    have hlen : l.length < table.toList.length := by
      rw [← htail, List.length_append, List.length_append, List.length_singleton]
      omega
    refine ⟨l.length, List.mem_range.mpr hlen, ?_⟩
    have hc : table.toList[l.length]? = some '_' := by
      rw [← htail, List.getElem?_append_right le_rfl, Nat.sub_self]
      rfl
    rw [if_pos hc, Option.some_inj, ← String.toList_inj, String.toList_ofList, List.take_add_one,
      hc, hl, ← htail, List.take_left]
    rfl

theorem escapedPrefix_eq (p : String) : escapedPrefix p = likeWildcards.escaped p.toList := by
  unfold escapedPrefix replaced Wildcards.escaped
  rw [List.flatMap_assoc, List.flatMap_assoc]
  refine congrArg (List.flatMap · p.toList) (funext fun x => ?_)
  by_cases hslash : x = '/'
  · subst hslash
    decide
  by_cases hany : x = '%'
  · subst hany
    decide
  by_cases hone : x = '_'
  · subst hone
    decide
  have hx : ¬ (x = likeWildcards.escape ∨ x = likeWildcards.one ∨ x = likeWildcards.any) := by
    rintro (h | h | h)
    exacts [hslash h, hone h, hany h]
  simp [hslash, hany, hone, hx]

theorem like_escapedPrefix (p : String) (s : List Char) :
    likeWildcards.like (escapedPrefix p ++ ['%']) s = true ↔ p.toList <+: s := by
  rw [escapedPrefix_eq]
  exact likeWildcards.like_escaped (by decide) p.toList s

variable {e : Event ν}

theorem selects_iff (hkind : e.kind = storageCleanupKind) {ns table : String}
    {familyPrefix : Option String} :
    selects ns table familyPrefix e = true ↔
      e.catalogNamespace = some ns ∧ (Covers e table ∨
        ∃ p, familyPrefix = some p ∧ ∃ t, e.catalogTable = some t ∧ p.toList <+: t.toList) := by
  unfold selects Covers
  rw [hkind]
  simp only [Bool.and_eq_true, Bool.or_eq_true, decide_eq_true_eq, Option.any_eq_true,
    mem_tableFamilyPrefixes, like_escapedPrefix, true_and, and_comm (a := Family _)]

variable {payload : Fields ν}

theorem intentMatches_iff {table : String} :
    intentMatchesCatalogTable payload table = true ↔
      text payload "catalog_table" = some table ∨
        ∃ f, text payload "catalog_family_prefix" = some f ∧ f.toList <+: table.toList := by
  unfold intentMatchesCatalogTable matchesTable
  simp only [Bool.or_eq_true, decide_eq_true_eq, Option.any_eq_true, List.isPrefixOf_iff_prefix]

theorem mem_catalogIntents {events : List (Event ν)} (he : e ∈ events) {ns table : String}
    {familyPrefix : Option String} :
    e ∈ catalogIntents events ns table familyPrefix ↔ selects ns table familyPrefix e = true := by
  rw [catalogIntents, List.mem_mergeSort, List.mem_filter, and_iff_right he]

theorem findable_iff (hkind : e.kind = storageCleanupKind) :
    Findable e ↔ ∀ ns, text e.payload "catalog_namespace" = some ns →
      ∀ table, (text e.payload "catalog_table" = some table ∨
        ∃ f, text e.payload "catalog_family_prefix" = some f ∧ f.toList <+: table.toList) →
      e.catalogNamespace = some ns ∧ Covers e table := by
  constructor
  · intro h ns hns table hmatch
    have hmem := h [e] List.mem_cons_self ns hns table none (intentMatches_iff.mpr hmatch)
    rw [mem_catalogIntents List.mem_cons_self, selects_iff hkind] at hmem
    refine ⟨hmem.1, hmem.2.resolve_right ?_⟩
    rintro ⟨p, hp, -⟩
    cases hp
  · intro h events he ns hns table familyPrefix hmatch
    obtain ⟨hcolumn, hcovers⟩ := h ns hns table (intentMatches_iff.mp hmatch)
    rw [mem_catalogIntents he, selects_iff hkind]
    exact ⟨hcolumn, .inl hcovers⟩

/-- Columns that cover every table of a family name a family around it: one table name does not
do for several tables. -/
theorem family_of_covers {f : String}
    (h : ∀ table : String, f.toList <+: table.toList → Covers e table) :
    ∃ g, e.catalogFamilyPrefix = some g ∧ Family g ∧ g.toList <+: f.toList := by
  have hext : ∀ c : Char, Covers e (f.push c) := fun c => h _ (by simp)
  rcases h f (List.prefix_refl _) with htable | hfamily
  · have hother : ∀ c : Char, ∃ g, e.catalogFamilyPrefix = some g ∧ Family g ∧
        g.toList <+: f.toList ++ [c] := by
      intro c
      rcases hext c with hc | ⟨g, hg, hfam, hpre⟩
      · have hne := congrArg (fun o => o.map String.length) (htable.symm.trans hc)
        simp at hne
      · exact ⟨g, hg, hfam, by rwa [String.toList_push] at hpre⟩
    obtain ⟨g, hg, hfam, ha⟩ := hother 'a'
    obtain ⟨g', hg', -, hb⟩ := hother 'b'
    obtain rfl := Option.some_inj.mp (hg.symm.trans hg')
    refine ⟨g, hg, hfam, ?_⟩
    rcases List.prefix_concat_iff.mp ha with heq | hpre
    · rw [heq] at hb
      have hlast := List.IsPrefix.eq_of_length hb (by simp)
      simp at hlast
    · exact hpre
  · exact hfamily

/-- Whatever the names of tables: the enumerated family prefixes and the escaped pattern are
prefix tests, and the lookup finds an intent that matches a table exactly when the columns of the
row carry the identity of its payload. -/
theorem catalogIntents_findable_iff (e : Event ν) (hkind : e.kind = storageCleanupKind) :
    (∀ table p, p ∈ tableFamilyPrefixes table ↔ p.toList <+: table.toList ∧ Family p) ∧
      (∀ p s, likeWildcards.like (escapedPrefix p ++ ['%']) s = true ↔ p.toList <+: s) ∧
      (Findable e ↔ Indexed e) := by
  refine ⟨fun table p => mem_tableFamilyPrefixes, like_escapedPrefix, ?_⟩
  rw [findable_iff hkind]
  constructor
  · intro h
    refine ⟨fun ns hns table ht => h ns hns table (.inl ht), fun ns hns f hf => ?_⟩
    exact ⟨(h ns hns f (.inr ⟨f, hf, List.prefix_refl _⟩)).1,
      family_of_covers fun table ht => (h ns hns table (.inr ⟨f, hf, ht⟩)).2⟩
  · rintro h ns hns table (ht | ⟨f, hf, hpre⟩)
    · exact h.table ns hns table ht
    · obtain ⟨hcolumn, g, hg, hfam, hgf⟩ := h.family ns hns f hf
      exact ⟨hcolumn, .inr ⟨g, hg, hfam, hgf.trans hpre⟩⟩

/-! ## Rows that are written -/

theorem get?_put (l : Fields ν) (e : String × Json ν) (key : String) :
    (l.put e).get? key = if e.1 = key then some e.2 else l.get? key := by
  induction l with
  | nil =>
    rw [Fields.put, Fields.get?_cons]
  | cons x l ih =>
    by_cases hx : x.1 = e.1
    · rw [Fields.put, if_pos hx, Fields.get?_cons, Fields.get?_cons]
      by_cases hk : e.1 = key
      · rw [if_pos hk, if_pos hk]
      · rw [if_neg hk, if_neg hk, if_neg (hx ▸ hk)]
    · rw [Fields.put, if_neg hx, Fields.get?_cons, ih, Fields.get?_cons]
      by_cases hk : e.1 = key
      · rw [if_pos hk, if_pos hk, if_neg fun h => hx (h.trans hk.symm)]
      · rw [if_neg hk, if_neg hk]

theorem text_put {e : String × Json ν} {key : String} (h : e.1 ≠ key) :
    text (payload.put e) key = text payload key := by
  rw [text, get?_put, if_neg h, text]

theorem indexed_newEvent {id url : String}
    (h : ∀ f, text payload "catalog_family_prefix" = some f → Family f) :
    Indexed (newEvent id url payload) := by
  have htext : ∀ key ∈ ["catalog_namespace", "catalog_table", "catalog_family_prefix"],
      text (newEvent id url payload).payload key = text payload key := by
    intro key hkey
    have hurl : "url" ≠ key := by
      rintro rfl
      exact absurd hkey (by decide)
    have hphase : "phase" ≠ key := by
      rintro rfl
      exact absurd hkey (by decide)
    rw [newEvent, text_put hphase, text_put hurl]
  refine ⟨fun ns hns table ht => ?_, fun ns hns f hf => ?_⟩
  · rw [htext _ (by decide)] at hns ht
    exact ⟨hns, .inl ht⟩
  · rw [htext _ (by decide)] at hns hf
    exact ⟨hns, f, hf, h f hf, List.prefix_refl _⟩

theorem indexed_retarget (h : Indexed e) {url : String}
    (hsame : ∀ key ∈ ["catalog_namespace", "catalog_table", "catalog_family_prefix"],
      text payload key = text e.payload key) : Indexed (retarget e url payload) := by
  have htext : ∀ key ∈ ["catalog_namespace", "catalog_table", "catalog_family_prefix"],
      text (retarget e url payload).payload key = text e.payload key := by
    intro key hkey
    have hurl : "url" ≠ key := by
      rintro rfl
      exact absurd hkey (by decide)
    have hphase : "phase" ≠ key := by
      rintro rfl
      exact absurd hkey (by decide)
    rw [retarget, text_put hphase, text_put hurl, hsame key hkey]
  refine ⟨fun ns hns table ht => ?_, fun ns hns f hf => ?_⟩
  · rw [htext _ (by decide)] at hns ht
    exact h.table ns hns table ht
  · rw [htext _ (by decide)] at hns hf
    exact h.family ns hns f hf

theorem family_catalogCleanupIdentity {zero : ν → Bool} {databaseUrl datasourceId : String}
    {config payload : Fields ν}
    (h : catalogCleanupIdentity zero databaseUrl config datasourceId = .ok payload) {f : String}
    (hf : text payload "catalog_family_prefix" = some f) : Family f := by
  unfold catalogCleanupIdentity identityOf at h
  dsimp only at h
  split at h
  · split at h
    · cases h
      split at hf
      · cases hf
        unfold Family
        rw [String.toList_append]
        exact List.getLast?_concat
      · cases hf
    · cases h
  · cases h
    cases hf

/-! ## A staged prefix that is deleted with its datasource -/

/-- The payload of a staged prefix (lines 366-379). -/
def stagedPayload : Fields Empty :=
  [("is_prefix", .bool true), ("catalog_namespace", .str "clean"),
    ("catalog_table", .str "ds__claim_1")]

/-- The configuration of the datasource that was published from it. -/
def publishedConfig : Fields Empty :=
  [("namespace", .str "clean"), ("table", .str "ds__claim_1"), ("catalog_type", .str "sql"),
    ("warehouse", .str "s3://default/clean")]

/-- The payload of its deletion. -/
def deletedPayload : Fields Empty :=
  match catalogCleanupIdentity (fun _ => false) "postgresql://app" publishedConfig "ds" with
  | .ok identity => ("is_prefix", .bool true) :: identity
  | .error _ => []

/-- The row of the staged prefix, armed again by the deletion. -/
def rearmedEvent : Event Empty :=
  retarget (newEvent "1" "s3://default/clean/ds__claim_1/master" stagedPayload)
    "s3://default/clean/ds__claim_1/master" deletedPayload

theorem catalogIntents_findable_iff_staged :
    Findable (newEvent "1" "s3://default/clean/ds__claim_1/master" stagedPayload) ↔
      Indexed (newEvent "1" "s3://default/clean/ds__claim_1/master" stagedPayload) :=
  (catalogIntents_findable_iff _ rfl).2.2

/-- The columns lack the family of the new payload, so another table of it finds nothing. -/
theorem not_findable_rearmedEvent :
    rearmedEvent.kind = storageCleanupKind ∧ ¬ Findable rearmedEvent := by
  refine ⟨rfl, fun h => ?_⟩
  have hmem := h [rearmedEvent] List.mem_cons_self "clean" rfl "ds_rev2" none (by decide)
  rw [mem_catalogIntents List.mem_cons_self] at hmem
  exact absurd hmem (by decide)

end DataForge.Storage
