import DataForge.Effects.Ends
import DataForge.Effects.Except
import DataForge.Ingest.Stage

/-!
# What staging keeps

Staging ends with the rows of all batches, cast to the types of the first, or with nothing
committed. The cast keeps the cells when the type that the first batch gives a column has every
later value of the column.
-/

namespace DataForge.Ingest

open List Effects

variable {κ : Type} {P : Polars κ}

/-! ## What the claim asks for -/

/-- The staged cell is null where the source is, and is the same value, with the same number,
where the source has one. -/
def Kept (P : Polars κ) : Option κ → Option κ → Prop
  | none, staged => staged = none
  | some v, staged => ∃ w, staged = some w ∧ P.Same v w ∧ P.number w = P.number v

/-- The staged rows: those of the Parquet file, unless its upload was not committed. -/
def Outcome.rows (o : Outcome κ) : List (List (Option κ)) :=
  match o.upload with
  | none => []
  | some u => if u.status = .committed then u.rows else []

/-- The exception left no upload behind that is not aborted. -/
def Outcome.Aborted (o : Outcome κ) : Prop :=
  (∃ message, o.result = .error message) ∧ ∀ u ∈ o.upload, u.status = .aborted

/-- The staged file has the rows of the source, cell by cell, or the function raised and the
upload is aborted; the manifest counts the staged rows. -/
structure StagesAll (P : Polars κ) (rows : List (List (Option κ))) (o : Outcome κ) : Prop where
  exact : Forall₂ (Forall₂ (Kept P)) rows o.rows ∨ o.Aborted
  rowCount : ∀ m, o.result = .ok m → m.rowCount = o.rows.length

/-- The type has the value. -/
def Fits (P : Polars κ) (d : DType) (v : κ) : Prop :=
  ∃ u, P.HasType d u ∧ P.Same v u

/-- Every value of a frame fits the type that a schema gives its column. -/
def Frame.Fits (schema : List (String × DType)) (f : Frame P) : Prop :=
  ∀ row ∈ f.rows, Forall₂ (fun c x => ∀ v ∈ x, Ingest.Fits P (Frame.typeOf schema c) v)
    f.schema row

/-- A batch with the columns of a schema, in its order when there are rows. -/
def Frame.Aligned (schema : List (String × DType)) (f : Frame P) : Prop :=
  schema.map Prod.fst ⊆ f.names ∧ (f.rows ≠ [] → f.names = schema.map Prod.fst)

/-- The batches of a source never drift out of the types of the first: unless the function
refuses the URLs or the columns of a batch, the coerced values of the later batches fit. -/
def Source.Steady (env : Env) (src : Source P) : Prop :=
  env.isObjectStoreUrl env.tablePath → env.isObjectStoreUrl env.manifestUrl →
    (∀ b ∈ src.batches.tail, (b.coerce src.database).Aligned src.schema) →
    ∀ b ∈ src.batches.tail, (b.coerce src.database).Fits src.schema

/-! ## Where the staging ends -/

/-- The rows written so far. -/
def Staging.rows (s : Staging κ) : List (List (Option κ)) :=
  (s.upload.map Upload.rows).getD []

/-- The upload has not been finished, and the rows written to it are counted. -/
structure Staging.Pending (s : Staging κ) : Prop where
  status : ∀ u ∈ s.upload, u.status = .pending
  rowCount : s.rowCount = s.rows.length

/-- What the staging leaves when it raises before the upload is committed: an unfinished
upload, and a cause. -/
def Raised (env : Env) (cause : Prop) (e : String × Staging κ) : Prop :=
  e.2.Pending ∧ ((∃ event, env.fails event ≠ none) ∨ cause)

variable {s : Staging κ} {env : Env} {cause : Prop}

theorem attempt_ends {e : Event} (h : s.Pending) :
    Ends (env.attempt e s) (fun _ => True) (Raised env cause) := by
  unfold Env.attempt
  split
  · exact trivial
  · next message hm => exact ⟨h, .inl ⟨e, by rw [hm]; exact Option.some_ne_none _⟩⟩

theorem openWriter_ends (h : s.Pending) :
    Ends (openWriter env s)
      (fun s' => s'.Pending ∧ s'.rows = s.rows ∧ s'.upload.isSome) (Raised env cause) := by
  unfold openWriter
  cases hu : s.upload with
  | some u => exact ⟨h, rfl, by rw [hu]; rfl⟩
  | none =>
    have hrows : s.rows = [] := by
      rw [Staging.rows, hu]
      rfl
    have hopen : Staging.Pending { s with upload := some ⟨[], .pending⟩ } :=
      ⟨fun u hu => by cases hu; rfl, by rw [h.rowCount, hrows]; rfl⟩
    refine (attempt_ends h).bind fun _ _ => (attempt_ends hopen).bind fun _ _ => ?_
    exact ⟨⟨hopen.status, hopen.rowCount⟩, hrows.symm, rfl⟩

theorem writeRecord_ends {target names : List String} {i j : ℕ} {rows : List (List (Option κ))}
    (h : s.Pending) :
    Ends (writeRecord env target names i j rows s)
      (fun s' => s'.Pending ∧ s'.rows = s.rows ++ rows ∧ (rows ≠ [] → names = target))
      (Raised env (rows ≠ [] ∧ names ≠ target)) := by
  unfold writeRecord
  by_cases hrows : rows = []
  · subst hrows
    exact ⟨h, (List.append_nil _).symm, fun hne => (hne rfl).elim⟩
  rw [if_neg (by rwa [List.isEmpty_iff])]
  refine (openWriter_ends h).bind fun t ht => ?_
  obtain ⟨hpending, heq, hsome⟩ := ht
  by_cases hnames : names = target
  · rw [if_neg (not_not.mpr hnames)]
    refine (attempt_ends hpending).bind fun _ _ => ?_
    obtain ⟨u, hu⟩ := Option.isSome_iff_exists.mp hsome
    have hwritten : t.rows = u.rows := by
      rw [Staging.rows, hu]
      rfl
    have happend : Staging.rows { t with
        upload := t.upload.map (·.write rows)
        rowCount := t.rowCount + rows.length } = t.rows ++ rows := by
      rw [hwritten, Staging.rows, hu]
      rfl
    refine ⟨⟨?_, ?_⟩, happend.trans (by rw [heq]), fun _ => hnames⟩
    · intro v hv
      rw [hu] at hv
      cases hv
      exact hpending.status u hu
    · rw [happend, List.length_append, ← hpending.rowCount]
  · rw [if_pos hnames]
    exact ⟨hpending, .inr ⟨hrows, hnames⟩⟩

theorem writeRecords_ends {target names : List String} {i j : ℕ}
    {records : List (List (List (Option κ)))} (h : s.Pending) :
    Ends (writeRecords env target names i j records s)
      (fun s' => s'.Pending ∧ s'.rows = s.rows ++ records.flatten ∧
        (records.flatten ≠ [] → names = target))
      (Raised env (records.flatten ≠ [] ∧ names ≠ target)) := by
  induction records generalizing j s with
  | nil => exact ⟨h, (List.append_nil _).symm, fun hne => (hne rfl).elim⟩
  | cons rows rest ih =>
    rw [writeRecords, List.flatten_cons]
    have hhead : Ends (writeRecord env target names i j rows s) _ (Raised env _) :=
      writeRecord_ends h
    refine (hhead.imp (fun _ ht => ht) fun e he => ?_).bind fun t ht => ?_
    · exact ⟨he.1, he.2.imp_right fun hc =>
        ⟨fun hnil => hc.1 (List.append_eq_nil_iff.mp hnil).1, hc.2⟩⟩
    obtain ⟨hpending, heq, hnames⟩ := ht
    refine (ih hpending).imp (fun t' ht' => ?_) fun e he => ?_
    · obtain ⟨hpending', heq', hnames'⟩ := ht'
      refine ⟨hpending', by rw [heq', heq, List.append_assoc], fun hne => ?_⟩
      by_cases hrows : rows = []
      · exact hnames' fun hnil => hne (by rw [hrows, hnil]; rfl)
      · exact hnames hrows
    · exact ⟨he.1, he.2.imp_right fun hc =>
        ⟨fun hnil => hc.1 (List.append_eq_nil_iff.mp hnil).2, hc.2⟩⟩

/-- The rows of a coerced batch as they are staged under a schema. -/
def Frame.stagedRows (schema : List (String × DType)) (f : Frame P) : List (List (Option κ)) :=
  (f.cast schema).rows

variable {schema : List (String × DType)}

theorem Frame.stagedRows_ne_nil {f : Frame P} :
    f.stagedRows schema ≠ [] ↔ f.rows ≠ [] :=
  not_congr List.map_eq_nil_iff

variable {database : Bool}

theorem stageBatch_ends {i : ℕ} {b : Frame P} (h : s.Pending) :
    Ends (stageBatch env database schema i b s)
      (fun s' => s'.Pending ∧ s'.rows = s.rows ++ (b.coerce database).stagedRows schema ∧
        (b.coerce database).Aligned schema)
      (Raised env (¬ (b.coerce database).Aligned schema)) := by
  unfold stageBatch
  refine (attempt_ends h).bind fun _ _ => (attempt_ends h).bind fun _ _ => ?_
  by_cases hsub : schema.map Prod.fst ⊆ (b.coerce database).names
  · rw [if_neg (not_not.mpr hsub)]
    refine (writeRecords_ends h).imp (fun t ht => ?_) fun e he => ?_
    · obtain ⟨hpending, heq, hnames⟩ := ht
      rw [P.flatten_toBatches] at heq hnames
      refine ⟨hpending, heq, hsub, fun hrows => ?_⟩
      rw [← hnames (Frame.stagedRows_ne_nil.mpr hrows), Frame.cast, Frame.names_mapColumns]
    · refine ⟨he.1, he.2.imp_right fun hc halign => ?_⟩
      rw [P.flatten_toBatches, Frame.cast, Frame.names_mapColumns] at hc
      exact hc.2 (halign.2 (Frame.stagedRows_ne_nil.mp hc.1))
  · rw [if_pos hsub]
    exact ⟨h, .inr fun halign => hsub halign.1⟩

theorem stageRest_ends {i : ℕ} {bs : List (Frame P)} (h : s.Pending) :
    Ends (stageRest env database schema i bs s)
      (fun s' => s'.Pending ∧
        s'.rows = s.rows ++ bs.flatMap (fun b => (b.coerce database).stagedRows schema) ∧
        ∀ b ∈ bs, (b.coerce database).Aligned schema)
      (Raised env (¬ ∀ b ∈ bs, (b.coerce database).Aligned schema)) := by
  induction bs generalizing i s with
  | nil =>
    exact (attempt_ends h).bind fun _ _ =>
      ⟨h, (List.append_nil _).symm, fun b hb => (not_mem_nil hb).elim⟩
  | cons b rest ih =>
    rw [stageRest]
    refine (attempt_ends h).bind fun _ _ => ?_
    refine ((stageBatch_ends h).imp (fun _ ht => ht) fun e he => ?_).bind fun t ht => ?_
    · exact ⟨he.1, he.2.imp_right fun hc hall => hc (hall b (mem_cons_self ..))⟩
    obtain ⟨hpending, heq, halign⟩ := ht
    refine (ih hpending).imp (fun t' ht' => ?_) fun e he => ?_
    · obtain ⟨hpending', heq', halign'⟩ := ht'
      refine ⟨hpending', ?_, forall_mem_cons.mpr ⟨halign, halign'⟩⟩
      rw [heq', heq, List.append_assoc, List.flatMap_cons]
    · exact ⟨he.1, he.2.imp_right fun hc hall => hc fun b' hb' => hall b' (mem_cons_of_mem _ hb')⟩

/-! ## Coerced and cast cells -/

theorem kept_some {v w : κ} (h : P.Same v w) : Kept P (some v) (some w) :=
  ⟨w, rfl, h, P.same_number h⟩

variable {c : String × DType}

theorem coerceCell_eq {v : κ} (h : P.HasType c.2 v) :
    ∃ w, coerceCell P database c v = some w ∧ P.Same v w := by
  have hnull : c.2 ≠ .null := by
    intro hc
    rw [hc] at h
    exact P.not_hasType_null v h
  cases database with
  | false => exact ⟨v, if_neg hnull, P.equivalence.refl v⟩
  | true =>
    change ∃ w, databaseCell P c v = some w ∧ P.Same v w
    rw [databaseCell, if_neg hnull]
    split_ifs with hstring hzone
    · exact ⟨_, rfl, P.same_stringify v⟩
    · obtain ⟨zone, hc⟩ := exists_zone hzone
      exact ⟨_, rfl, P.same_toUtc (hc ▸ h)⟩
    · exact ⟨_, rfl, P.equivalence.refl v⟩

theorem kept_coerce {row : List (Option κ)}
    (h : Forall₂ (fun c x => ∀ v ∈ x, P.HasType c.2 v) schema row) :
    Forall₂ (Kept P) row (Frame.mapRow schema (coerceCell P database) row) := by
  induction h with
  | nil => exact .nil
  | @cons c x _ _ hx _ ih =>
    refine .cons ?_ ih
    cases x with
    | none => rfl
    | some v =>
      obtain ⟨w, hw, hsame⟩ : ∃ w, coerceCell P database c v = some w ∧ P.Same v w :=
        coerceCell_eq (hx v rfl)
      change Kept P (some v) (coerceCell P database c v)
      rw [hw]
      exact kept_some hsame

theorem kept_iff_of_kept {row row' staged : List (Option κ)} (h : Forall₂ (Kept P) row row') :
    Forall₂ (Kept P) row staged ↔ Forall₂ (Kept P) row' staged := by
  induction h generalizing staged with
  | nil => exact Iff.rfl
  | @cons x y _ _ hxy _ ih =>
    have hcell : ∀ z, Kept P x z ↔ Kept P y z := by
      intro z
      cases x with
      | none =>
        have hy : y = none := hxy
        rw [hy]
      | some v =>
        obtain ⟨w, rfl, hsame, -⟩ := hxy
        constructor
        · rintro ⟨u, rfl, hu, -⟩
          exact kept_some (P.equivalence.trans (P.equivalence.symm hsame) hu)
        · rintro ⟨u, rfl, hu, -⟩
          exact kept_some (P.equivalence.trans hsame hu)
    rw [forall₂_cons_left_iff, forall₂_cons_left_iff]
    simp only [hcell, ih]

theorem fits_of_hasType {d : DType} {v : κ} (h : P.HasType d v) : Fits P d v :=
  ⟨v, h, P.equivalence.refl v⟩

theorem kept_cast_iff {d : DType} {v : κ} : Kept P (some v) (P.cast d v) ↔ Fits P d v := by
  constructor
  · rintro ⟨w, hw, hsame, -⟩
    exact ⟨w, P.hasType_cast hw, hsame⟩
  · rintro ⟨u, hu, hsame⟩
    obtain ⟨w, hw, hsame⟩ := P.cast_same hu hsame
    rw [hw]
    exact kept_some hsame

theorem kept_castCell_iff {v : κ} (h : P.HasType c.2 v) :
    Kept P (some v) (Frame.castCell P schema c v) ↔ Fits P (Frame.typeOf schema c) v := by
  cases hl : schema.lookup c.1 with
  | some d => rw [← kept_cast_iff, Frame.castCell, if_pos (by rw [hl]; rfl)]
  | none =>
    rw [Frame.castCell, if_neg (by rw [hl]; exact Bool.false_ne_true), Frame.typeOf, hl]
    exact iff_of_true (kept_some (P.equivalence.refl v)) (fits_of_hasType h)

theorem kept_castRow_iff {target schema : List (String × DType)} {row : List (Option κ)}
    (h : Forall₂ (fun c x => ∀ v ∈ x, P.HasType c.2 v) schema row) :
    Forall₂ (Kept P) row (Frame.mapRow schema (Frame.castCell P target) row) ↔
      Forall₂ (fun c x => ∀ v ∈ x, Fits P (Frame.typeOf target c) v) schema row := by
  induction h with
  | nil => exact iff_of_true .nil .nil
  | @cons c x _ _ hx _ ih =>
    change Forall₂ (Kept P) _ (_ :: _) ↔ _
    rw [forall₂_cons, forall₂_cons]
    refine and_congr ?_ ih
    cases x with
    | none => exact iff_of_true rfl fun v hv => by cases hv
    | some v =>
      refine (kept_castCell_iff (hx v rfl)).trans ⟨fun hfits w hw => ?_, fun hall => hall v rfl⟩
      cases hw
      exact hfits

/-- A row of a batch as it is staged. -/
def Frame.stageRow (target : List (String × DType)) (database : Bool) (f : Frame P)
    (row : List (Option κ)) : List (Option κ) :=
  mapRow (f.coerce database).schema (castCell P target)
    (mapRow f.schema (coerceCell P database) row)

theorem Frame.stagedRows_coerce {target : List (String × DType)} {f : Frame P} :
    (f.coerce database).stagedRows target = f.rows.map (f.stageRow target database) :=
  List.map_map

theorem Frame.kept_stageRow_iff {target : List (String × DType)} {f : Frame P} :
    (∀ row ∈ f.rows, Forall₂ (Kept P) row (f.stageRow target database row)) ↔
      (f.coerce database).Fits target := by
  have hrow : ∀ row ∈ f.rows, Forall₂ (Kept P) row (f.stageRow target database row) ↔
      Forall₂ (fun c x => ∀ v ∈ x, Ingest.Fits P (typeOf target c) v) (f.coerce database).schema
        (mapRow f.schema (coerceCell P database) row) := by
    intro row h
    rw [stageRow, kept_iff_of_kept (kept_coerce (f.typed row h)), kept_castRow_iff]
    exact (f.coerce database).typed _ (List.mem_map_of_mem h)
  constructor
  · intro h row hmem
    obtain ⟨row', hrow', rfl⟩ := List.mem_map.mp hmem
    exact (hrow row' hrow').mp (h row' hrow')
  · intro h row hmem
    exact (hrow row hmem).mpr (h _ (List.mem_map_of_mem hmem))

/-- Coercing a coerced column changes nothing. -/
theorem coerceType_coerceType (database : Bool) (c : String × DType) :
    coerceType database (c.1, coerceType database c) = coerceType database c := by
  cases database with
  | false =>
    change icebergType (c.1, icebergType c) = icebergType c
    by_cases hnull : c.2 = .null
    · simp [icebergType, hnull]
    · simp [icebergType, hnull]
  | true =>
    change databaseType (c.1, databaseType c) = databaseType c
    by_cases hnull : c.2 = .null
    · simp [databaseType, hnull, stringifyColumn, timezoneColumn]
    by_cases hstring : stringifyColumn c.2
    · have heq : databaseType c = .string := by
        rw [databaseType, if_neg hnull, if_pos hstring]
      rw [heq]
      rfl
    by_cases hzone : timezoneColumn c.2
    · have heq : databaseType c = .datetime (some "UTC") := by
        rw [databaseType, if_neg hnull, if_neg hstring, if_pos hzone]
      rw [heq]
      rfl
    · have heq : databaseType c = c.2 := by
        rw [databaseType, if_neg hnull, if_neg hstring, if_neg hzone]
      rw [heq]
      exact heq

theorem schema_coerce_coerce (database : Bool) (f : Frame P) :
    ((f.coerce database).coerce database).schema = (f.coerce database).schema := by
  change (f.schema.map _).map _ = f.schema.map _
  rw [List.map_map]
  refine List.map_congr_left fun c _ => ?_
  exact Prod.ext rfl (coerceType_coerceType database c)

theorem typeOf_mem (hnodup : (schema.map Prod.fst).Nodup) (hc : c ∈ schema) :
    Frame.typeOf schema c = c.2 := by
  induction schema with
  | nil => exact (not_mem_nil hc).elim
  | cons a rest ih =>
    rw [List.map_cons, List.nodup_cons] at hnodup
    rcases List.mem_cons.mp hc with rfl | hmem
    · rw [Frame.typeOf, List.lookup_cons, beq_self_eq_true]
      rfl
    · have hne : c.1 ≠ a.1 := fun heq => hnodup.1 (heq ▸ List.mem_map_of_mem hmem)
      rw [Frame.typeOf, List.lookup_cons, beq_false_of_ne hne]
      exact ih hnodup.2 hmem

theorem Frame.fits_self (f : Frame P) : f.Fits f.schema := by
  intro row hrow
  refine forall₂_imp_mem (f.typed row hrow) fun c hc x hx v hv => ?_
  rw [typeOf_mem f.nodup hc]
  exact fits_of_hasType (hx v hv)

/-! ## The run -/

/-- The batches as the loop takes them (line 168). -/
def Source.chain (src : Source P) : List (Frame P) :=
  src.first.coerce src.database :: src.batches.tail

/-- The rows that a run stages. -/
def Source.staged (src : Source P) : List (List (Option κ)) :=
  src.chain.flatMap fun b => (b.coerce src.database).stagedRows src.schema

theorem Source.aligned_first (src : Source P) :
    ((src.first.coerce src.database).coerce src.database).Aligned src.schema := by
  have heq : ((src.first.coerce src.database).coerce src.database).names =
      src.schema.map Prod.fst := by
    rw [Frame.names, schema_coerce_coerce, Source.schema]
  exact ⟨fun n hn => heq ▸ hn, fun _ => heq⟩

theorem Source.rows_eq (src : Source P) :
    src.rows = src.first.rows ++ src.batches.tail.flatMap Frame.rows := by
  unfold Source.rows Source.first
  cases src.batches with
  | nil => rfl
  | cons b rest => rfl

/-- The staged rows are the rows of the source when the coerced values of the later batches
fit the types of the first. -/
theorem Source.kept_iff (src : Source P) :
    Forall₂ (Forall₂ (Kept P)) src.rows src.staged ↔
      ∀ b ∈ src.batches.tail, (b.coerce src.database).Fits src.schema := by
  have hrest : ∀ bs : List (Frame P),
      Forall₂ (Forall₂ (Kept P)) (bs.flatMap Frame.rows)
          (bs.flatMap fun b => (b.coerce src.database).stagedRows src.schema) ↔
        ∀ b ∈ bs, (b.coerce src.database).Fits src.schema := by
    intro bs
    induction bs with
    | nil => exact iff_of_true .nil fun b hb => (not_mem_nil hb).elim
    | cons b bs ih =>
      rw [List.flatMap_cons, List.flatMap_cons, Frame.stagedRows_coerce, forall₂_append_map, ih,
        forall_mem_cons, Frame.kept_stageRow_iff]
  have hfirst : ∀ row ∈ src.first.rows, Forall₂ (Kept P) row
      ((src.first.coerce src.database).stageRow src.schema src.database
        (Frame.mapRow src.first.schema (coerceCell P src.database) row)) := by
    intro row hrow
    rw [kept_iff_of_kept (kept_coerce (src.first.typed row hrow))]
    refine Frame.kept_stageRow_iff.mpr ?_ _ (List.mem_map_of_mem hrow)
    have hself := Frame.fits_self ((src.first.coerce src.database).coerce src.database)
    rwa [schema_coerce_coerce] at hself
  have hrows : ((src.first.coerce src.database).coerce src.database).stagedRows src.schema =
      src.first.rows.map fun row => (src.first.coerce src.database).stageRow src.schema
        src.database (Frame.mapRow src.first.schema (coerceCell P src.database) row) :=
    Frame.stagedRows_coerce.trans List.map_map
  rw [src.rows_eq, Source.staged, Source.chain, List.flatMap_cons, hrows, forall₂_append_map,
    hrest]
  exact and_iff_right hfirst

/-- The upload is committed, with all rows of the source, all batches having the columns of
the first. -/
structure Committed (src : Source P) (s : Staging κ) : Prop where
  status : ∀ u ∈ s.upload, u.status = .committed
  rows : s.rows = src.staged
  aligned : ∀ b ∈ src.batches.tail, (b.coerce src.database).Aligned src.schema

theorem commitUpload_ends (h : s.Pending) :
    Ends (commitUpload env s)
      (fun s' => (∀ u ∈ s'.upload, u.status = .committed) ∧ s'.rows = s.rows ∧
        s'.rowCount = s.rows.length) (Raised env cause) := by
  unfold commitUpload
  cases hu : s.upload with
  | none => exact ⟨fun u hu' => (by cases hu.symm.trans hu'), rfl, h.rowCount⟩
  | some u =>
    refine (attempt_ends h).bind fun _ _ => (attempt_ends h).bind fun _ _ => ?_
    refine ⟨fun v hv => by cases hv; rfl, ?_, h.rowCount⟩
    rw [Staging.rows, Staging.rows, hu]
    rfl

theorem uploadManifest_ends :
    Ends (uploadManifest env schema s) (fun r => r.2 = s ∧ r.1.rowCount = s.rowCount)
      (fun e => e.2 = s) := by
  unfold uploadManifest
  dsimp only
  split_ifs
  · rfl
  · unfold Env.attempt
    split
    · exact ⟨rfl, rfl⟩
    · rfl

/-- The body of the `try` commits all rows, or raises with the upload unfinished. -/
theorem stageBatches_ends (env : Env) (src : Source P) :
    Ends (stageBatches env src)
      (fun r => Committed src r.2 ∧ r.1.rowCount = r.2.rows.length)
      (fun e => Committed src e.2 ∨ Raised env
        (¬ ∀ b ∈ src.batches.tail, (b.coerce src.database).Aligned src.schema) e) := by
  have hstart : Staging.Pending (κ := κ) ⟨none, [], 0⟩ := ⟨fun u hu => (by cases hu), rfl⟩
  unfold stageBatches
  refine ((stageBatch_ends hstart).imp (fun _ h => h) fun e he => ?_).bind fun s hs => ?_
  · exact .inr ⟨he.1, he.2.imp_right fun hc => (hc src.aligned_first).elim⟩
  obtain ⟨hpending, hrows, -⟩ := hs
  refine ((stageRest_ends hpending).imp (fun _ h => h) fun e he => .inr he).bind fun t ht => ?_
  obtain ⟨hpending', hrows', halign⟩ := ht
  refine ((commitUpload_ends hpending').imp (fun _ h => h) fun e he => .inr he).bind fun c hc => ?_
  obtain ⟨hstatus, hrows'', hcount⟩ := hc
  have hcommitted : Committed src c := ⟨hstatus, by rw [hrows'', hrows', hrows]; rfl, halign⟩
  refine uploadManifest_ends.imp (fun r hr => ?_) fun e he => .inl (he ▸ hcommitted)
  obtain ⟨heq, hm⟩ := hr
  rw [heq, hm, hcount, hrows'']
  exact ⟨hcommitted, rfl⟩

/-- Why a run leaves no file behind: the URLs are refused, a call raises or a batch has other
columns than the first. -/
def Refused (env : Env) (src : Source P) : Prop :=
  (¬ env.isObjectStoreUrl env.tablePath ∨ ¬ env.isObjectStoreUrl env.manifestUrl) ∨
    (∃ event, env.fails event ≠ none) ∨
      ¬ ∀ b ∈ src.batches.tail, (b.coerce src.database).Aligned src.schema

/-- A run leaves all rows of the source in a committed file, though a manifest too large
raises behind the commit. -/
structure Published (src : Source P) (o : Outcome κ) : Prop where
  status : ∀ u ∈ o.upload, u.status = .committed
  rows : o.rows = src.staged
  aligned : ∀ b ∈ src.batches.tail, (b.coerce src.database).Aligned src.schema
  rowCount : ∀ m, o.result = .ok m → m.rowCount = o.rows.length

variable {src : Source P}

theorem beforeUpload_some {message : String} (h : beforeUpload env src = some message) :
    Refused env src := by
  by_contra hpass
  simp only [Refused, not_or, not_not, not_exists, ne_eq] at hpass
  obtain ⟨⟨htable, hmanifest⟩, hfails, -⟩ := hpass
  rw [beforeUpload, if_neg (not_not.mpr htable), if_neg (not_not.mpr hmanifest)] at h
  simp [hfails] at h

theorem beforeUpload_none (h : beforeUpload env src = none) :
    env.isObjectStoreUrl env.tablePath ∧ env.isObjectStoreUrl env.manifestUrl := by
  unfold beforeUpload at h
  split_ifs at h with htable hmanifest
  all_goals exact ⟨by simpa using htable, by simpa using hmanifest⟩

theorem Committed.published (h : Committed src s) {result : Except String Manifest}
    (hm : ∀ m, result = .ok m → m.rowCount = s.rows.length) :
    Published src ⟨result, s.upload⟩ := by
  have hrows : Outcome.rows ⟨result, s.upload⟩ = s.rows := by
    rw [Outcome.rows, Staging.rows]
    cases hu : s.upload with
    | none => rfl
    | some u => exact if_pos (h.status u hu)
  exact ⟨h.status, hrows.trans h.rows, h.aligned, fun m hok => by rw [hrows, hm m hok]⟩

/-- A run publishes the rows of all batches or leaves nothing. -/
theorem stage_ends (env : Env) (src : Source P) :
    ((env.isObjectStoreUrl env.tablePath ∧ env.isObjectStoreUrl env.manifestUrl) ∧
        Published src (stageDatasourceToObjectStore env src)) ∨
      (stageDatasourceToObjectStore env src).Aborted ∧ Refused env src := by
  unfold stageDatasourceToObjectStore
  cases hbefore : beforeUpload env src with
  | some message =>
    exact .inr ⟨⟨⟨message, rfl⟩, fun u hu => by cases hu⟩, beforeUpload_some hbefore⟩
  | none =>
    have hends := stageBatches_ends env src
    cases hrun : stageBatches env src with
    | ok r =>
      rw [hrun] at hends
      exact .inl ⟨beforeUpload_none hbefore, hends.1.published fun m hm => by
        cases hm
        exact hends.2⟩
    | error e =>
      rw [hrun] at hends
      rcases hends with hcommitted | hraised
      · left
        have hkeep : e.2.upload.map Upload.abort = e.2.upload := by
          cases hu : e.2.upload with
          | none => rfl
          | some u =>
            rw [Option.map_some, Upload.abort, if_neg]
            rw [hcommitted.status u hu]
            decide
        dsimp only
        rw [hkeep]
        exact ⟨beforeUpload_none hbefore, hcommitted.published fun m hm => by cases hm⟩
      · refine .inr ⟨⟨⟨e.1, rfl⟩, fun u hu => ?_⟩, .inr hraised.2⟩
        obtain ⟨v, hv, rfl⟩ := Option.map_eq_some_iff.mp hu
        rw [Upload.abort, if_pos (hraised.1.status v hv)]

/-- Values of a source: integers, floats, and texts that spell a number or none. -/
inductive Sample where
  | int (n : Int)
  | float (q : ℚ)
  | numeral (q : ℚ)
  | word (s : String)

/-- The number or the text that a value is. -/
def Sample.content : Sample → ℚ ⊕ String
  | .int n => .inl n
  | .float q | .numeral q => .inl q
  | .word s => .inr s

/-- Integer types, `Float64` for the other types, and texts. -/
def Sample.HasType : DType → Sample → Prop
  | .integer _, .int _ => True
  | .other _, .float _ => True
  | .string, .numeral _ => True
  | .string, .word _ => True
  | _, _ => False

/-- Numbers are cast to numbers and texts, without a fraction to an integer; a text to the number
that it spells. -/
def Sample.cast : DType → Sample → Option Sample
  | .integer _, .int n => some (.int n)
  | .integer _, .float q => some (.int (q.num.tdiv q.den))
  | .integer _, .numeral q => if q.den = 1 then some (.int q.num) else none
  | .other _, .int n => some (.float n)
  | .other _, .float q => some (.float q)
  | .other _, .numeral q => some (.float q)
  | .string, .int n => some (.numeral n)
  | .string, .float q => some (.numeral q)
  | .string, v => some v
  | _, _ => none

/-- A frame library over the sample values. -/
def samplePolars : Polars Sample where
  HasType := Sample.HasType
  Same v w := v.content = w.content
  number v := v.content.getLeft?
  cast := Sample.cast
  stringify
    | .int n => .numeral n
    | .float q => .numeral q
    | v => v
  toUtc v := v
  toBatches rows := [rows]
  not_hasType_null v h := by cases v <;> exact h
  equivalence := ⟨fun _ => rfl, Eq.symm, Eq.trans⟩
  same_number h := by rw [h]
  hasType_cast := by
    rintro d v w h
    cases d <;> cases v <;> first | cases h | skip
    all_goals try trivial
    case integer.numeral q =>
      rw [Sample.cast] at h
      split_ifs at h
      cases h
      trivial
  cast_same := by
    rintro d v u hu h
    cases d <;> cases u <;> try exact hu.elim
    case string.numeral q => cases v <;> first | cases h; done | exact ⟨_, rfl, rfl⟩
    case string.word s => cases v <;> first | cases h; done | exact ⟨_, rfl, rfl⟩
    case other.float q => cases v <;> first | cases h; done | exact ⟨_, rfl, rfl⟩
    case integer.int name n =>
      cases v with
      | int m => exact ⟨_, rfl, rfl⟩
      | float q =>
        obtain rfl : q = n := Sum.inl.inj h
        exact ⟨_, rfl, by simp [Sample.content]⟩
      | numeral q =>
        obtain rfl : q = n := Sum.inl.inj h
        have hcast : Sample.cast (.integer name) (.numeral n) = some (.int (n : ℚ).num) := by
          rw [Sample.cast, if_pos (Rat.den_intCast n)]
        exact ⟨_, hcast, rfl⟩
      | word s => cases h
  hasType_stringify v := by cases v <;> trivial
  same_stringify v := by cases v <;> rfl
  hasType_toUtc h := h
  same_toUtc _ := rfl
  flatten_toBatches rows := List.append_nil rows

/-- A frame with one column and one row. -/
def sampleFrame (d : DType) (v : Sample) (h : Sample.HasType d v) : Frame samplePolars where
  schema := [("value", d)]
  rows := [[some v]]
  nodup := by simp
  typed row hrow := by
    rw [List.mem_singleton.mp hrow]
    exact .cons (fun w hw => by cases hw; exact h) .nil

/-- A query whose first batch has integers and whose second has a text. -/
def drifting : Source samplePolars where
  database := true
  batches := [sampleFrame (.integer "Int64") (.int 1) trivial,
    sampleFrame .string (.word "n/a") trivial]
  frame := sampleFrame (.integer "Int64") (.int 1) trivial

/-- Object-store URLs, and calls that never raise. -/
def sampleEnv : Env where
  tablePath := "s3://default/clean/source/master"
  manifestUrl := "s3://default/runtime-staging/manifest.json"
  isObjectStoreUrl _ := true
  joinObjectStoreUrl base part := base ++ "/" ++ part
  manifestBytes _ := 0
  fails _ := none

end DataForge.Ingest
