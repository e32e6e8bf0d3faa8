import FlowGate.Proofs.LinkReading
import Mathlib.Data.List.Dedup
import Mathlib.Data.List.Induction

/-!
# What is left of links, and what is reported

A registry has one entry for each identity of a link that compiles, that of the last such link
(`get?_build_eq_some_iff`). What is wrong with a link is reported when it is entered
(`Link.complaint?`): that its text does not compile, or that an earlier link of its identity
compiled. A compiling link either adds an entry or is reported, which is why the entries and the
reported repetitions are together as many as the compiling links (`length_filter_warn_add_size`).

The links are taken from the front, so the inductions here put one more link at the end
(`complaints_concat`, `events_enter_build`).
-/

set_option autoImplicit false

namespace FlowGate

open OrderedMap

namespace Link

/-- An expression link with a text that is more than blanks, and the entry that it compiles to. -/
structure CompilesTo (link : Link) (entry : Registry.Entry) : Prop where
  type_eq : link.type = .expression
  not_blank : Text.trim link.text.toList ≠ []
  attributes_eq : entry.attributes = (translate link.text).attributes
  source_eq : entry.source = (translate link.text).rewritten
  compile_eq : Expr.compile (translate link.text).rewritten = .ok entry.expr

/-- An expression link with a text that is more than blanks, and why it does not compile. -/
structure FailsWith (link : Link) (failure : CompileFailure) : Prop where
  type_eq : link.type = .expression
  not_blank : Text.trim link.text.toList ≠ []
  link_eq : failure.link = link.id
  text_eq : failure.text = link.text
  compile_eq : Expr.compile (translate link.text).rewritten = .error failure.cause

/-- Why the link does not compile, if it is guarded and does not. -/
def failure? (link : Link) : Option CompileFailure :=
  match link.compile.value with
  | .ok _ => none
  | .error failure => some failure

/-- Whether the link has an entry of its own. -/
def compiles (link : Link) : Bool :=
  link.entry?.isSome

theorem entry?_eq_some_iff_compilesTo (link : Link) (entry : Registry.Entry) :
    link.entry? = some entry ↔ link.CompilesTo entry := by
  rw [entry?_eq_some_iff, isGuarded_iff]
  constructor
  · rintro ⟨⟨htype, htext⟩, hattributes, hsource, hcompile⟩
    exact ⟨htype, htext, hattributes, hsource, hcompile⟩
  · rintro ⟨htype, htext, hattributes, hsource, hcompile⟩
    exact ⟨⟨htype, htext⟩, hattributes, hsource, hcompile⟩

theorem compiles_iff (link : Link) : link.compiles = true ↔ ∃ entry, link.CompilesTo entry := by
  rw [compiles, Option.isSome_iff_exists]
  exact exists_congr fun entry ↦ link.entry?_eq_some_iff_compilesTo entry

theorem failure?_eq_some_iff (link : Link) (failure : CompileFailure) :
    link.failure? = some failure ↔ link.FailsWith failure := by
  have hfails : link.FailsWith failure ↔ link.isGuarded = true ∧ failure.link = link.id ∧
      failure.text = link.text ∧
        Expr.compile (translate link.text).rewritten = .error failure.cause := by
    rw [isGuarded_iff]
    constructor
    · rintro ⟨htype, htext, hid, hfailed, hcompile⟩
      exact ⟨⟨htype, htext⟩, hid, hfailed, hcompile⟩
    · rintro ⟨⟨htype, htext⟩, hid, hfailed, hcompile⟩
      exact ⟨htype, htext, hid, hfailed, hcompile⟩
  obtain ⟨id, text, cause⟩ := failure
  rw [hfails]
  unfold failure? compile
  by_cases hguarded : link.isGuarded = true
  · rw [if_pos hguarded]
    simp only [Logged.value_bind]
    cases Expr.compile (translate link.text).rewritten with
    | ok tree => simp
    | error found => simp [hguarded, eq_comm]
  · rw [if_neg hguarded]
    simp [hguarded]

end Link

namespace Registry

/-- The identities of the links that compile, in the order of the links. -/
def compiledIds (links : List Link) : List UInt32 :=
  (links.filter Link.compiles).map Link.id

theorem mem_compiledIds_iff {links : List Link} {id : UInt32} :
    id ∈ compiledIds links ↔ ∃ link ∈ links, link.id = id ∧ ∃ entry, link.CompilesTo entry := by
  simp only [compiledIds, List.mem_map, List.mem_filter, Link.compiles_iff]
  constructor
  · rintro ⟨link, ⟨hlink, hcompiles⟩, hid⟩
    exact ⟨link, hlink, hid, hcompiles⟩
  · rintro ⟨link, hlink, hid, hcompiles⟩
    exact ⟨link, ⟨hlink, hcompiles⟩, hid⟩

end Registry

/-- What is wrong with a link behind other links: its text does not compile, or it takes the place
of one of them. -/
def Link.complaint? (earlier : List Link) (link : Link) : Option Event :=
  match link.failure? with
  | some failure => some (.notCompiled failure)
  | none =>
    if link.compiles ∧ link.id ∈ Registry.compiledIds earlier then some (.repeated link.id)
    else none

namespace Registry

/-- What is wrong with links, each of them behind the ones in front of it. -/
def complaints (links : List Link) : List Event :=
  links.zipIdx.filterMap fun (link, place) ↦ link.complaint? (links.take place)

/-! ### One more link -/

theorem build_concat (links : List Link) (link : Link) :
    build (links ++ [link]) = build links >>= fun registry ↦ enter registry link := by
  rw [build, List.foldlM_append]
  simp [build]

theorem complaints_concat (links : List Link) (link : Link) :
    complaints (links ++ [link]) = complaints links ++ (link.complaint? links).toList := by
  -- the other links have the same links in front of them as before
  have hearlier : (links.zipIdx.filterMap fun (other, place) ↦
      other.complaint? ((links ++ [link]).take place)) = complaints links := by
    refine List.filterMap_congr fun (other, place) hother ↦ ?_
    have hplace : place ≤ links.length := Nat.le_of_lt (List.snd_lt_of_mem_zipIdx hother)
    simp only [List.take_append_of_le_length hplace]
  rw [complaints, List.zipIdx_append, List.filterMap_append, hearlier]
  cases hlink : link.complaint? links <;> simp [hlink]

theorem compiledIds_concat (links : List Link) (link : Link) :
    compiledIds (links ++ [link]) =
      compiledIds links ++ if link.compiles then [link.id] else [] := by
  cases hlink : link.compiles <;> simp [compiledIds, hlink]

/-! ### What is left -/

/-- The last of the results of a list is that of the last member with a result. -/
theorem getLast?_filterMap_eq_some_iff {α β : Type} {f : α → Option β} {members : List α}
    {result : β} :
    (members.filterMap f).getLast? = some result ↔
      ∃ before member after, members = before ++ member :: after ∧ f member = some result ∧
        ∀ other ∈ after, f other = none := by
  rw [List.getLast?_filterMap, List.findSome?_eq_some_iff]
  constructor
  · rintro ⟨after, member, before, hmembers, hresult, hafter⟩
    rw [List.reverse_eq_append_iff] at hmembers
    exact ⟨before.reverse, member, after.reverse, by simpa using hmembers, hresult,
      by simpa using hafter⟩
  · rintro ⟨before, member, after, rfl, hresult, hafter⟩
    exact ⟨after.reverse, member, before.reverse, by simp, hresult, by simpa using hafter⟩

/-- An identity has the entry of the last of its links that compiles, whatever else comes later. -/
theorem get?_build_eq_some_iff (links : List Link) (id : UInt32) (entry : Entry) :
    Entries.get? id (build links).value = some entry ↔
      ∃ before link after, links = before ++ link :: after ∧ link.id = id ∧
        link.CompilesTo entry ∧
          ∀ other ∈ after, other.id = id → ∀ replaced, ¬other.CompilesTo replaced := by
  rw [get?_build, List.filterMap_filter, getLast?_filterMap_eq_some_iff]
  refine exists_congr fun before ↦ exists_congr fun link ↦ exists_congr fun after ↦
    and_congr_right fun _ ↦ ?_
  rw [← and_assoc]
  refine and_congr ?_ (forall₂_congr fun other _ ↦ ?_)
  · simp [Link.entry?_eq_some_iff_compilesTo]
  · simp [Option.eq_none_iff_forall_ne_some, Link.entry?_eq_some_iff_compilesTo]

theorem contains_build_iff (links : List Link) (id : UInt32) :
    OrderedMap.contains (build links).value id = true ↔ id ∈ compiledIds links := by
  rw [OrderedMap.contains, get?_build, List.getLast?_isSome, ne_eq, List.filterMap_eq_nil_iff]
  simp [compiledIds, Link.compiles, Option.isSome_iff_ne_none, and_comm]

/-- A link adds an entry iff it compiles and no earlier link of its identity does. -/
theorem size_build_concat (links : List Link) (link : Link) :
    OrderedMap.size (build (links ++ [link])).value =
      OrderedMap.size (build links).value +
        if link.compiles ∧ link.id ∉ compiledIds links then 1 else 0 := by
  rw [build_concat, Logged.value_bind, value_enter, Link.compiles]
  cases link.entry? with
  | none => simp
  | some entry =>
    rw [OrderedMap.size_insert]
    by_cases hearlier : link.id ∈ compiledIds links
    · simp [hearlier, contains_build_iff]
    · simp [hearlier, contains_build_iff]

/-- There are as many entries as identities of links that compile. -/
theorem size_build (links : List Link) :
    OrderedMap.size (build links).value = (compiledIds links).dedup.length := by
  have hnodup := OrderedMap.nodup_keys (build links).value
  rw [← OrderedMap.length_keys]
  refine ((List.perm_ext_iff_of_nodup hnodup (List.nodup_dedup _)).mpr fun id ↦ ?_).length_eq
  rw [OrderedMap.mem_keys_iff, contains_build_iff, List.mem_dedup]

/-! ### What is reported -/

/-- Entering a link reports the text that is compiled, and then what is wrong with the link. -/
theorem events_enter_build (links : List Link) (link : Link) :
    (enter (build links).value link).events =
      (if link.isGuarded then [.rewritten link.id (translate link.text).rewritten] else []) ++
        (link.complaint? links).toList := by
  simp only [Link.complaint?, ← contains_build_iff]
  unfold enter Link.failure? Link.compiles Link.entry? Link.compile
  by_cases hguarded : link.isGuarded = true
  · cases hcompile : Expr.compile (translate link.text).rewritten with
    | error cause => simp [hguarded, hcompile]
    | ok tree =>
      by_cases hcontains : OrderedMap.contains (build links).value link.id = true <;>
        simp [hguarded, hcompile, hcontains]
  · simp [hguarded]

theorem level_of_complaint? {links : List Link} {link : Link} {event : Event}
    (h : link.complaint? links = some event) : event.level ≠ .debug := by
  unfold Link.complaint? at h
  split at h
  · cases h
    simp [Event.level]
  · split at h
    · cases h
      simp [Event.level]
    · cases h

/-- Apart from the texts that are compiled, building reports what is wrong with the links. -/
theorem filter_events_build (links : List Link) :
    (build links).events.filter (fun event ↦ event.level ≠ .debug) = complaints links := by
  induction links using List.reverseRecOn with
  | nil => rfl
  | append_singleton links link ih =>
    have hrewritten : ((if link.isGuarded then
        [Event.rewritten link.id (translate link.text).rewritten] else []).filter
          fun event ↦ event.level ≠ .debug) = [] := by
      cases link.isGuarded <;> rfl
    have hcomplaint : ((link.complaint? links).toList.filter
        fun event ↦ event.level ≠ .debug) = (link.complaint? links).toList := by
      refine List.filter_eq_self.mpr fun event hevent ↦ decide_eq_true ?_
      exact level_of_complaint? (Option.mem_toList.mp hevent)
    rw [build_concat, Logged.events_bind, List.filter_append, ih, complaints_concat,
      events_enter_build, List.filter_append, hrewritten, hcomplaint, List.nil_append]

/-- The errors among what is wrong are the failures to compile. -/
theorem filter_error_complaints (links : List Link) :
    (complaints links).filter (fun event ↦ event.level = .error) =
      (links.filterMap Link.failure?).map .notCompiled := by
  induction links using List.reverseRecOn with
  | nil => rfl
  | append_singleton links link ih =>
    rw [complaints_concat, List.filter_append, ih, List.filterMap_append, List.map_append,
      Link.complaint?]
    cases hfailure : link.failure? with
    | some failure => simp [hfailure, Event.level]
    | none =>
      by_cases hrepeated : link.compiles ∧ link.id ∈ compiledIds links <;>
        simp [hfailure, hrepeated, Event.level]

/-- A link that does not compile has no entry. -/
theorem compiles_eq_false_of_failure? {link : Link} {failure : CompileFailure}
    (h : link.failure? = some failure) : link.compiles = false := by
  unfold Link.failure? at h
  unfold Link.compiles Link.entry?
  cases hcompile : link.compile.value with
  | error found => rfl
  | ok entry =>
    rw [hcompile] at h
    cases h

/-- The warning about a link says that it compiles and an earlier link of its identity does. -/
theorem filter_warn_complaint? (links : List Link) (link : Link) :
    (link.complaint? links).toList.filter (fun event ↦ event.level = .warn) =
      if link.compiles ∧ link.id ∈ compiledIds links then [.repeated link.id] else [] := by
  unfold Link.complaint?
  cases hfailure : link.failure? with
  | some failure => simp [compiles_eq_false_of_failure? hfailure, Event.level]
  | none =>
    by_cases hrepeated : link.compiles ∧ link.id ∈ compiledIds links <;>
      simp [hrepeated, Event.level]

/-- A link that compiles either adds an entry or is reported to repeat an identity. -/
theorem length_filter_warn_add_size (links : List Link) :
    ((complaints links).filter fun event ↦ event.level = .warn).length +
      OrderedMap.size (build links).value = (compiledIds links).length := by
  induction links using List.reverseRecOn with
  | nil => rfl
  | append_singleton links link ih =>
    rw [complaints_concat, List.filter_append, List.length_append, filter_warn_complaint?,
      size_build_concat, compiledIds_concat, List.length_append, ← ih]
    by_cases hcompiles : link.compiles = true
    · by_cases hearlier : link.id ∈ compiledIds links
      · simp only [hcompiles, hearlier, and_self, not_true_eq_false, and_false, if_true, if_false,
          List.length_singleton]
        omega
      · simp only [hcompiles, hearlier, not_false_eq_true, and_false, and_self, if_true, if_false,
          List.length_singleton, List.length_nil]
        omega
    · simp [hcompiles]

/-- What a registry holds and what building it reports, for any list of links. An identity has the
entry of the last of its expression links with a text that is more than blanks and compiles, and
nothing if there is no such link. The identities are listed in strictly ascending order, and there
are as many entries as different identities of these links. Apart from the texts that are compiled,
what is reported is what is wrong with the links, in their order: each failure to compile once as
an error, and warnings that together with the entries are as many as the compiling links. -/
theorem build_keeps_last (links : List Link) :
    (∀ id entry, Entries.get? id (build links).value = some entry ↔
        ∃ before link after, links = before ++ link :: after ∧ link.id = id ∧
          link.CompilesTo entry ∧
            ∀ other ∈ after, other.id = id → ∀ replaced, ¬other.CompilesTo replaced) ∧
      (∀ id, id ∈ OrderedMap.keys (build links).value ↔
        ∃ link ∈ links, link.id = id ∧ ∃ entry, link.CompilesTo entry) ∧
      (OrderedMap.keys (build links).value).Pairwise (· < ·) ∧
      OrderedMap.size (build links).value = (compiledIds links).dedup.length ∧
      (build links).events.filter (fun event ↦ event.level ≠ .debug) = complaints links ∧
      (complaints links).filter (fun event ↦ event.level = .error) =
        (links.filterMap Link.failure?).map .notCompiled ∧
      (∀ (link : Link) failure, link.failure? = some failure ↔ link.FailsWith failure) ∧
      ((complaints links).filter fun event ↦ event.level = .warn).length +
        OrderedMap.size (build links).value = (compiledIds links).length := by
  refine ⟨get?_build_eq_some_iff links, fun id ↦ ?_, OrderedMap.pairwise_keys _, size_build links,
    filter_events_build links, filter_error_complaints links, Link.failure?_eq_some_iff,
    length_filter_warn_add_size links⟩
  rw [OrderedMap.mem_keys_iff, contains_build_iff, mem_compiledIds_iff]

end Registry

end FlowGate
