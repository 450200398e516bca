import RecordQuery.Arrangement.Basic
import RecordQuery.Proofs.Arrangement.Partition
import RecordQuery.Proofs.Arrangement.StableSort
import RecordQuery.Proofs.Json.Fields
import RecordQuery.Proofs.Json.WellFormed

/-!
# The document of a result

An object has one value for a name, and a result finds the first of the
buckets of a name: a result and its document agree as long as no two
buckets of a level share their name (`Output.DistinctNames`). Grouping
gives every bucket of a level a name of its own, at every level
(`distinctNames_groupRecords`). What names lead to in the document is then
the document of what they lead to in the result (`memberAt?_toJson`), and
an object has a member for each bucket (`length_ofList_entriesToJson`).

Both ways of making a document of a result give the same one, whatever
its names are (`serialize_eq_toJson`).
-/

namespace RecordQuery

/-- What member names lead to in a document, the outermost first. -/
def Json.memberAt? (json : Json) : List String → Option Json
  | [] => some json
  | name :: rest =>
    match json with
    | .object members => (Members.get? name members).bind fun value => value.memberAt? rest
    | _ => none

namespace Output

theorem entriesToJson_eq_map (buckets : List (String × Output)) :
    entriesToJson buckets = buckets.map fun (name, output) => (name, output.toJson) := by
  induction buckets with
  | nil => rfl
  | cons bucket rest ih =>
      obtain ⟨name, output⟩ := bucket
      rw [entriesToJson, ih, List.map_cons]

theorem map_fst_entriesToJson (buckets : List (String × Output)) :
    (entriesToJson buckets).map Prod.fst = buckets.map Prod.fst := by
  rw [entriesToJson_eq_map, List.map_map]
  rfl

theorem lookup_entriesToJson (buckets : List (String × Output)) (wanted : String) :
    (entriesToJson buckets).lookup wanted = (buckets.lookup wanted).map toJson := by
  induction buckets with
  | nil => rfl
  | cons bucket rest ih =>
      obtain ⟨name, output⟩ := bucket
      rw [entriesToJson, List.lookup_cons, List.lookup_cons, ih]
      cases wanted == name <;> rfl

/-! ## Two ways to the document -/

mutual

/-- Writing a result leaves the document that it is turned into. -/
theorem serialize_eq_toJson : ∀ output : Output, output.serialize = output.toJson
  | .records items => by rw [serialize, toJson]
  | .groups buckets => by
      rw [serialize, toJson, serializeEntries_eq_foldl]
      rfl

/-- Buckets are written into the members that are there, one after the other. -/
theorem serializeEntries_eq_foldl :
    ∀ (buckets : List (String × Output)) (written : Members),
      serializeEntries buckets written
        = (entriesToJson buckets).foldl (fun members (name, value) => members.insert name value)
            written
  | [], _ => by rw [serializeEntries, entriesToJson, List.foldl_nil]
  | (name, output) :: rest, written => by
      rw [serializeEntries, serializeEntries_eq_foldl rest, serialize_eq_toJson output,
        entriesToJson, List.foldl_cons]

end

/-! ## Names that tell buckets apart -/

/-- No two buckets of a level have one name, at any level. -/
inductive DistinctNames : Output → Prop where
  | records (items : List Json) : DistinctNames (.records items)
  | groups {buckets : List (String × Output)} (hnames : (buckets.map Prod.fst).Nodup)
    (hbuckets : ∀ bucket ∈ buckets, DistinctNames bucket.2) : DistinctNames (.groups buckets)

namespace DistinctNames

theorem nodup_names {buckets : List (String × Output)} (h : (Output.groups buckets).DistinctNames) :
    (buckets.map Prod.fst).Nodup := by
  cases h with
  | groups hnames _ => exact hnames

theorem group? {output bucket : Output} (h : output.DistinctNames) {name : String}
    (hbucket : output.group? name = some bucket) : bucket.DistinctNames := by
  cases h with
  | records items => cases hbucket
  | groups hnames hbuckets =>
      obtain ⟨before, after, rfl, -⟩ := List.lookup_eq_some_iff.mp hbucket
      exact hbuckets (name, bucket) (by simp)

theorem follow? {output level : Output} (h : output.DistinctNames) :
    ∀ {names : List String}, output.follow? names = some level → level.DistinctNames
  | [], hlevel => Option.some.inj hlevel ▸ h
  | name :: rest, hlevel => by
      obtain ⟨bucket, hbucket, hrest⟩ := Option.bind_eq_some_iff.mp hlevel
      exact (h.group? hbucket).follow? hrest

end DistinctNames

/-! ## Looking into the document -/

theorem get?_ofList_entriesToJson {buckets : List (String × Output)}
    (h : (buckets.map Prod.fst).Nodup) (name : String) :
    Members.get? name (Members.ofList (entriesToJson buckets))
      = (buckets.lookup name).map toJson := by
  rw [Members.get?_ofList ((map_fst_entriesToJson buckets).symm ▸ h), lookup_entriesToJson]

/-- No member is overwritten by another. -/
theorem length_ofList_entriesToJson {buckets : List (String × Output)}
    (h : (buckets.map Prod.fst).Nodup) :
    (Members.ofList (entriesToJson buckets)).length = buckets.length := by
  rw [(Members.perm_ofList ((map_fst_entriesToJson buckets).symm ▸ h)).length_eq,
    entriesToJson_eq_map, List.length_map]

/-- Names lead to the document of what they lead to in the result. -/
theorem memberAt?_toJson :
    ∀ {output : Output}, output.DistinctNames → ∀ names : List String,
      output.toJson.memberAt? names = (output.follow? names).map toJson
  | _, _, [] => rfl
  | .records items, _, name :: rest => rfl
  | .groups buckets, h, name :: rest => by
      rw [toJson, Json.memberAt?, get?_ofList_entriesToJson h.nodup_names, Output.follow?,
        Output.group?, groups?, Option.bind_some]
      cases hbucket : buckets.lookup name with
      | none => rfl
      | some bucket => exact memberAt?_toJson (h.group? hbucket) rest

end Output

/-! ## The document of a grouped result -/

theorem distinctNames_groupRecords :
    ∀ (keys : List FieldPath) (records : List Json), (groupRecords keys records).DistinctNames
  | [], records => .records records
  | key :: rest, records => by
      obtain ⟨buckets, hbuckets, hlevel⟩ := exists_level_groupRecords key rest records
      rw [groupRecords_cons] at hbuckets ⊢
      obtain rfl := Output.groups.inj hbuckets
      refine .groups hlevel.nodup_names fun bucket hbucket => ?_
      obtain ⟨name, -, rfl⟩ := List.mem_map.mp hbucket
      exact distinctNames_groupRecords rest (bucketOf key name records)

/-- Without other keys the records are grouped as they are. -/
theorem arrange_of_group (keys : List FieldPath) (records : List Json) :
    ({ group := keys } : Keys).arrange records = groupRecords keys records := by
  rw [Keys.arrange, selectRecords_nil, sortRecords_eq_foldr records []]
  rfl

/-- **The document of a result loses no bucket.** Both ways of making it give the
same one. Names lead in it to the document of what they lead to in the result,
and to nothing where they lead to nothing there: to the array of the records
where they lead to records, and where they lead to buckets, to an object with
as many members as there are buckets, no two of one name. -/
theorem toJson_arrange_loses_no_bucket (keys : Keys) (records : List Json) :
    let output := keys.arrange records
    output.serialize = output.toJson
      ∧ (∀ names : List String,
        output.toJson.memberAt? names = (output.follow? names).map Output.toJson)
      ∧ (∀ (names : List String) (items : List Json),
        output.follow? names = some (.records items) →
        output.toJson.memberAt? names = some (.array items))
      ∧ ∀ (names : List String) (buckets : List (String × Output)),
        output.follow? names = some (.groups buckets) →
        ∃ members : Members, output.toJson.memberAt? names = some (.object members)
          ∧ members.length = buckets.length ∧ members.Ascending := by
  intro output
  have hdistinct : output.DistinctNames := distinctNames_groupRecords keys.group _
  have hfollow := Output.memberAt?_toJson hdistinct
  refine ⟨output.serialize_eq_toJson, hfollow, fun names items hitems => ?_,
    fun names buckets hbuckets => ?_⟩
  · rw [hfollow, hitems, Option.map_some, Output.toJson]
  · have hnames := (hdistinct.follow? hbuckets).nodup_names
    refine ⟨_, ?_, Output.length_ofList_entriesToJson hnames, Members.ascending_ofList _⟩
    rw [hfollow, hbuckets, Option.map_some, Output.toJson]

/-- A level in which one bucket has records of three kinds, with a level of two buckets below
it. -/
theorem toJson_arrange_loses_no_bucket_across_kinds :
    let keys : Keys := { group := [⟨"t"⟩, ⟨"s"⟩] }
    let number : Json := .object [("s", .bool true), ("t", .ofInt 1 (by decide))]
    let array : Json := .object [("t", .array [.ofInt 1 (by decide)])]
    let text : Json := .object [("s", .string "undefined"), ("t", .string "1")]
    let output := keys.arrange [number, array, .object [], text]
    ∃ (buckets : List (String × Output)) (members : Members),
      output.follow? ["1"] = some (.groups buckets)
        ∧ buckets.map Prod.fst = ["true", "undefined"]
        ∧ output.toJson.memberAt? ["1"] = some (.object members)
        ∧ members.length = buckets.length ∧ members.Ascending
        ∧ output.serialize.memberAt? ["1", "undefined"] = some (.array [array, text]) := by
  intro keys number array text output
  let records := [number, array, .object [], text]
  have houtput : output = groupRecords keys.group records := arrange_of_group keys.group records
  have hone : recordsUnder keys.group ["1"] records = [number, array, text] := by decide +kernel
  have hboth : recordsUnder keys.group ["1", "undefined"] records = [array, text] := by
    decide +kernel
  have hnames : bucketNames ⟨"s"⟩ [number, array, text] = ["true", "undefined"] := by
    decide +kernel
  have hlevel := follow?_groupRecords records (by decide : ["1"].length ≤ keys.group.length)
  rw [hone, if_pos (Or.inr (List.cons_ne_nil _ _)), ← houtput] at hlevel
  have hleaf := follow?_groupRecords records
    (by decide : ["1", "undefined"].length ≤ keys.group.length)
  rw [hboth, if_pos (Or.inr (List.cons_ne_nil _ _)), ← houtput] at hleaf
  obtain ⟨hserialize, -, hrecords, hlevels⟩ := toJson_arrange_loses_no_bucket keys records
  have hbuckets := hlevel.trans (congrArg some (groupRecords_cons ⟨"s"⟩ [] _))
  rw [hnames] at hbuckets
  obtain ⟨members, hmembers, hlength, hascending⟩ := hlevels ["1"] _ hbuckets
  refine ⟨_, members, hbuckets, rfl, hmembers, hlength, hascending, ?_⟩
  rw [hserialize]
  exact hrecords ["1", "undefined"] [array, text] hleaf

end RecordQuery
