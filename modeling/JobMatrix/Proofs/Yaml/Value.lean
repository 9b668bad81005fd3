import JobMatrix.Proofs.Log
import JobMatrix.Proofs.Yaml.Decode
import JobMatrix.Proofs.Yaml.Document

/-!
# Values in larger documents

A node is read as the same value in a document that has more entries around it, as long as its
aliases stand for the same nodes: `Decoder.carries_valueWithin`.  The entries of a mapping are read
one after the other (`Decoder.valueEntries_append`), so the entries of one document may be found
between those of another one.
-/

set_option autoImplicit false

namespace JobMatrix.Yaml

/-- The second document has the anchors of the first, and is not smaller. -/
structure Document.Extends (d d' : Document) : Prop where
  anchored : d'.anchored = d.anchored
  extent : d.extent ≤ d'.extent

namespace Decode

variable {α β : Type} {x y : Decode α} {f g : α → Decode β} {d d' : Document} {k : Nat}

theorem run_bind_ok {r : β × Nat} : ((x >>= f).run d).run k = .ok r ↔
    ∃ a k', (x.run d).run k = .ok (a, k') ∧ ((f a).run d).run k' = .ok r := by
  change ((x.run d).run k >>= fun q => ((f q.1).run d).run q.2) = _ ↔ _
  rw [bind_eq_ok_iff]
  exact ⟨fun ⟨q, hq, hr⟩ => ⟨q.1, q.2, hq, hr⟩, fun ⟨a, k', hq, hr⟩ => ⟨(a, k'), hq, hr⟩⟩

theorem run_map_ok {f : α → β} {b : β} {k' : Nat} : ((f <$> x).run d).run k = .ok (b, k') ↔
    ∃ a, (x.run d).run k = .ok (a, k') ∧ f a = b := by
  change ((x.run d).run k >>= fun q => Except.ok (f q.1, q.2)) = _ ↔ _
  rw [bind_eq_ok_iff]
  constructor
  · rintro ⟨⟨a, k'⟩, ha, h⟩
    cases h
    exact ⟨a, ha, rfl⟩
  · rintro ⟨a, ha, rfl⟩
    exact ⟨(a, k'), ha, rfl⟩

theorem run_located {path : Path} {r : α × Nat} :
    ((located path x).run d).run k = .ok r ↔ (x.run d).run k = .ok r := by
  change (tryCatch ((x.run d).run k) fun e => throw (e.locate path)) = _ ↔ _
  cases (x.run d).run k with
  | error e =>
    constructor
    · intro h
      cases h
    · intro h
      cases h
  | ok q => rfl

/-- What the first computation gives in a document, the second gives in a larger one. -/
def Carries (x y : Decode α) : Prop :=
  ∀ d d' : Document, d.Extends d' → ∀ k r, (x.run d).run k = .ok r → (y.run d').run k = .ok r

theorem carries_pure (a : α) : Carries (pure a) (pure a) := fun _ _ _ _ _ h => h

theorem carries_fail (cause : Cause) : Carries (fail cause : Decode α) y := by
  intro _ _ _ _ _ h
  cases h

theorem Carries.bind (hx : Carries x y) (hf : ∀ a, Carries (f a) (g a)) :
    Carries (x >>= f) (y >>= g) := by
  intro d d' hd k r h
  obtain ⟨a, k', ha, hr⟩ := run_bind_ok.1 h
  exact run_bind_ok.2 ⟨a, k', hx d d' hd k _ ha, hf a d d' hd k' r hr⟩

theorem Carries.map {f : α → β} (hx : Carries x y) : Carries (f <$> x) (f <$> y) :=
  hx.bind fun a => carries_pure (f a)

theorem Carries.located {path path' : Path} (hx : Carries x y) :
    Carries (located path x) (located path' y) := fun d d' hd k r h =>
  run_located.2 (hx d d' hd k r (run_located.1 h))

theorem run_follow_alias (number : Nat) (d : Document) (k : Nat) :
    ((follow (.alias number)).run d).run k =
      if 100 * d.extent < k + 1 then .error ⟨none, .repetitionLimit⟩
      else .ok (d.target number, k + 1) := by
  change ((if 100 * d.extent < k + 1 then fail .repetitionLimit else
    (do set (k + 1); pure (d.target number) : Decode (Node Nat))).run d).run k = _
  split <;> rfl

theorem carries_follow (node : Node Nat) : Carries (follow node) (follow node) := by
  intro d d' hd k r h
  cases node with
  | «alias» number =>
    rw [run_follow_alias] at h ⊢
    split at h
    · cases h
    · rename_i hlimit
      have hextent := hd.extent
      rw [if_neg (by omega), Document.target, hd.anchored]
      exact h
  | scalar p style text => exact h
  | sequence p items => exact h
  | mapping p entries => exact h

end Decode

namespace Decoder

open Decode

variable {inner inner' : Decoder Value} {path path' : Path} {d d' : Document} {k k' : Nat}

/-- A decoder and the same decoder at other places. -/
def CarriesAll (inner inner' : Decoder Value) : Prop :=
  ∀ path path' node, Carries (inner path node) (inner' path' node)

theorem carries_itemsFrom (h : CarriesAll inner inner') (items : List (Node Nat)) :
    ∀ i i', Carries (itemsFrom inner path i items) (itemsFrom inner' path' i' items) := by
  induction items with
  | nil => exact fun _ _ => carries_pure []
  | cons node nodes ih =>
    exact fun i i' => (h _ _ node).bind fun x => (ih (i + 1) (i' + 1)).bind fun xs =>
      carries_pure (x :: xs)

theorem carries_valueEntries (h : CarriesAll inner inner') (entries : List (Node Nat × Node Nat)) :
    ∀ seen, Carries (valueEntries inner path seen entries)
      (valueEntries inner' path' seen entries) := by
  induction entries with
  | nil => exact fun seen => carries_pure seen.reverse
  | cons e entries ih =>
    intro seen
    refine (h _ _ e.1).bind fun key => ?_
    cases seen.find? fun entry => entry.1.same key with
    | some entry => exact carries_fail _
    | none => exact (h _ _ e.2).bind fun value => ih ((key, value) :: seen)

theorem carries_scalarValue (tagTaken : Bool) (p : Properties Nat) (style : ScalarStyle)
    (text : String) :
    Carries (scalarValue tagTaken p style text) (scalarValue tagTaken p style text) := by
  rw [scalarValue]
  cases scalarType tagTaken p.tag style text with
  | error cause => exact carries_fail _
  | ok r =>
    cases r with
    | wideInteger signed n => exact carries_fail _
    | _ => exact carries_pure _

theorem carries_tagged (tag? : Option String) (value : Value) : Carries
    (match tag? with
      | some tag => pure (Value.tagged tag value)
      | none => pure value)
    (match tag? with
      | some tag => pure (Value.tagged tag value)
      | none => pure value) := by
  cases tag? <;> exact carries_pure _

theorem carries_valueWith {inner? inner'? : Option (Decoder Value)}
    (h : Option.Rel CarriesAll inner? inner'?) : CarriesAll (valueWith inner?) (valueWith inner'?) := by
  intro path path' node
  refine Carries.located ((carries_follow node).bind fun node => ?_)
  have htag := carries_tagged (localTag? node)
  dsimp only
  cases node with
  | «alias» number => cases h <;> exact (carries_fail _).bind htag
  | scalar p style text => cases h <;> exact (carries_scalarValue _ p style text).bind htag
  | sequence p items =>
    cases h with
    | none => exact (carries_fail _).bind htag
    | some h => exact (carries_itemsFrom h items 0 0).map.bind htag
  | mapping p entries =>
    cases h with
    | none => exact (carries_fail _).bind htag
    | some h => exact (carries_valueEntries h entries []).map.bind htag

theorem carries_valueWithin : ∀ levels, CarriesAll (valueWithin levels) (valueWithin levels)
  | 0 => carries_valueWith .none
  | levels + 1 => carries_valueWith (.some (carries_valueWithin levels))

/-! ## The entries of a mapping -/

/-- No two keys are the same. -/
def DistinctKeys (entries : List (Value × Value)) : Prop :=
  entries.Pairwise fun a b => a.1.same b.1 = false

/-- No key is the same as one of those read before. -/
def FreshKeys (seen entries : List (Value × Value)) : Prop :=
  ∀ e' ∈ seen, ∀ e ∈ entries, e'.1.same e.1 = false

theorem find?_same_eq_none {seen : List (Value × Value)} {key : Value} :
    (seen.find? fun entry => entry.1.same key) = none ↔ ∀ e ∈ seen, e.1.same key = false := by
  simp only [List.find?_eq_none, Bool.not_eq_true]

theorem run_valueEntries_cons {seen : List (Value × Value)} {e : Node Nat × Node Nat}
    {entries : List (Node Nat × Node Nat)} {r : List (Value × Value) × Nat} :
    ((valueEntries inner path seen (e :: entries)).run d).run k = .ok r ↔
      ∃ key k₁ value k₂, ((inner path e.1).run d).run k = .ok (key, k₁) ∧
        (∀ e' ∈ seen, e'.1.same key = false) ∧
          ((inner (path.child e.1) e.2).run d).run k₁ = .ok (value, k₂) ∧
            ((valueEntries inner path ((key, value) :: seen) entries).run d).run k₂ = .ok r := by
  rw [valueEntries, run_bind_ok]
  constructor
  · rintro ⟨key, k₁, hkey, h⟩
    cases hfind : seen.find? fun entry => entry.1.same key with
    | some entry =>
      rw [hfind] at h
      cases h
    | none =>
      rw [hfind] at h
      obtain ⟨value, k₂, hvalue, h⟩ := run_bind_ok.1 h
      exact ⟨key, k₁, value, k₂, hkey, find?_same_eq_none.1 hfind, hvalue, h⟩
  · rintro ⟨key, k₁, value, k₂, hkey, hfresh, hvalue, h⟩
    refine ⟨key, k₁, hkey, ?_⟩
    rw [find?_same_eq_none.2 hfresh]
    exact run_bind_ok.2 ⟨value, k₂, hvalue, h⟩

/-- **A mapping never has one key twice.** -/
theorem valueEntries_distinct {entries : List (Node Nat × Node Nat)} :
    ∀ {seen : List (Value × Value)} {k : Nat} {r : List (Value × Value) × Nat},
      DistinctKeys seen.reverse →
        ((valueEntries inner path seen entries).run d).run k = .ok r → DistinctKeys r.1 := by
  induction entries with
  | nil =>
    intro seen k r hseen h
    cases h
    exact hseen
  | cons e entries ih =>
    intro seen k r hseen h
    obtain ⟨key, k₁, value, k₂, -, hfresh, -, h⟩ := run_valueEntries_cons.1 h
    refine ih ?_ h
    rw [List.reverse_cons]
    refine List.pairwise_append.2 ⟨hseen, List.pairwise_singleton _ _, fun a ha b hb => ?_⟩
    rw [List.mem_singleton.1 hb]
    exact hfresh a (List.mem_reverse.1 ha)

theorem freshKeys_cons_iff {seen entries : List (Value × Value)} {e : Value × Value} :
    FreshKeys seen (e :: entries) ↔
      (∀ e' ∈ seen, e'.1.same e.1 = false) ∧ FreshKeys seen entries := by
  simp only [FreshKeys, List.forall_mem_cons, forall_and]

theorem freshKeys_reverse_iff {seen entries : List (Value × Value)} :
    FreshKeys seen.reverse entries ↔ FreshKeys seen entries := by
  simp only [FreshKeys, List.mem_reverse]

theorem freshKeys_nil (entries : List (Value × Value)) : FreshKeys [] entries :=
  fun _ h => by cases h

/-- An entry whose nodes can be read is read exactly if its key is not there already. -/
theorem run_valueEntries_cons_iff {seen : List (Value × Value)} {e : Node Nat × Node Nat}
    {entries : List (Node Nat × Node Nat)} {key value : Value} {k₁ k₂ : Nat}
    (hkey : ((inner path e.1).run d).run k = .ok (key, k₁))
    (hvalue : ((inner (path.child e.1) e.2).run d).run k₁ = .ok (value, k₂))
    {r : List (Value × Value) × Nat} :
    ((valueEntries inner path seen (e :: entries)).run d).run k = .ok r ↔
      (∀ e' ∈ seen, e'.1.same key = false) ∧
        ((valueEntries inner path ((key, value) :: seen) entries).run d).run k₂ = .ok r := by
  rw [run_valueEntries_cons]
  constructor
  · rintro ⟨key', k₁', value', k₂', hkey', hfresh, hvalue', hrun⟩
    cases hkey.symm.trans hkey'
    cases hvalue.symm.trans hvalue'
    exact ⟨hfresh, hrun⟩
  · rintro ⟨hfresh, hrun⟩
    exact ⟨key, k₁, value, k₂, hkey, hfresh, hvalue, hrun⟩

/-- Entries behind others that belong to the same mapping, and behind more in a larger one. -/
theorem run_valueEntries_append (path' : Path) (h : CarriesAll inner inner') (hd : d.Extends d')
    {entries : List (Node Nat × Node Nat)} :
    ∀ {seen r : List (Value × Value)} {k k' : Nat},
      ((valueEntries inner path seen entries).run d).run k = .ok (r, k') →
        ∃ es, r = seen.reverse ++ es ∧ ∀ seen' more r',
          ((valueEntries inner' path' (seen ++ seen') (entries ++ more)).run d').run k = .ok r' ↔
            FreshKeys seen' es ∧
              ((valueEntries inner' path' (es.reverse ++ (seen ++ seen')) more).run d').run k'
                = .ok r' := by
  induction entries with
  | nil =>
    intro seen r k k' hrun
    cases hrun
    exact ⟨[], (List.append_nil _).symm, fun seen' more r' =>
      (and_iff_right fun e' _ e he => by cases he).symm⟩
  | cons e entries ih =>
    intro seen r k k' hrun
    obtain ⟨key, k₁, value, k₂, hkey, hfresh, hvalue, hrun⟩ := run_valueEntries_cons.1 hrun
    obtain ⟨es, rfl, hes⟩ := ih hrun
    refine ⟨(key, value) :: es, ?_, fun seen' more r' => ?_⟩
    · rw [List.reverse_cons, List.append_assoc]
      rfl
    -- the key is compared with those around the entries too
    have hkey' := h path path' e.1 d d' hd k _ hkey
    have hvalue' := h (path.child e.1) (path'.child e.1) e.2 d d' hd k₁ _ hvalue
    rw [List.cons_append, run_valueEntries_cons_iff hkey' hvalue', ← List.cons_append,
      hes seen' more r', freshKeys_cons_iff, List.forall_mem_append, and_iff_right hfresh,
      List.reverse_cons, List.append_assoc, and_assoc]
    rfl

/-- **Entries are read alike in a larger mapping**, as long as their keys are not there already. -/
theorem valueEntries_append (path' : Path) (h : CarriesAll inner inner') (hd : d.Extends d')
    {entries more : List (Node Nat × Node Nat)} {seen es : List (Value × Value)}
    (hrun : ((valueEntries inner path [] entries).run d).run k = .ok (es, k'))
    {r : List (Value × Value) × Nat} :
    ((valueEntries inner' path' seen.reverse (entries ++ more)).run d').run k = .ok r ↔
      FreshKeys seen es ∧
        ((valueEntries inner' path' (seen ++ es).reverse more).run d').run k' = .ok r := by
  obtain ⟨es', hes', happend⟩ := run_valueEntries_append path' h hd hrun
  rw [List.reverse_nil, List.nil_append] at hes'
  subst hes'
  rw [List.reverse_append, ← freshKeys_reverse_iff]
  exact happend seen.reverse more r

theorem gives_valueEntries_nil (seen : List (Value × Value)) :
    (valueEntries inner path seen []).Gives seen.reverse := gives_pure _

theorem gives_valueEntries_cons {seen r : List (Value × Value)} {e : Node Nat × Node Nat}
    {entries : List (Node Nat × Node Nat)} {key value : Value} (hkey : (inner path e.1).Gives key)
    (hvalue : (inner (path.child e.1) e.2).Gives value) (hfresh : ∀ e' ∈ seen, e'.1.same key = false)
    (hentries : (valueEntries inner path ((key, value) :: seen) entries).Gives r) :
    (valueEntries inner path seen (e :: entries)).Gives r := fun d k =>
  run_valueEntries_cons.2 ⟨key, k, value, k, hkey d k, hfresh, hvalue d k, hentries d k⟩

/-- Entries that are read one by one, whatever stands around them. -/
theorem gives_valueEntries {α : Type} {f : α → Node Nat × Node Nat} {g : α → Value × Value}
    {l : List α} (h : ∀ a ∈ l, ∀ path, (inner path (f a).1).Gives (g a).1 ∧
      (inner path (f a).2).Gives (g a).2) :
    ∀ {seen : List (Value × Value)}, FreshKeys seen (l.map g) → DistinctKeys (l.map g) →
      (valueEntries inner path seen (l.map f)).Gives (seen.reverse ++ l.map g) := by
  induction l with
  | nil =>
    intro seen _ _
    rw [List.map_nil, List.map_nil, List.append_nil]
    exact gives_valueEntries_nil seen
  | cons a l ih =>
    intro seen hfresh hdistinct
    obtain ⟨hfirst, hdistinct⟩ := List.pairwise_cons.1 hdistinct
    have hfresh' : FreshKeys (g a :: seen) (l.map g) := by
      intro e' he' e he
      rcases List.mem_cons.1 he' with rfl | he'
      · exact hfirst e he
      · exact hfresh e' he' e (List.mem_cons_of_mem _ he)
    have hrest := ih (fun b hb => h b (List.mem_cons_of_mem _ hb)) hfresh' hdistinct
    rw [List.reverse_cons, List.append_assoc] at hrest
    exact gives_valueEntries_cons (h a List.mem_cons_self path).1 (h a List.mem_cons_self _).2
      (fun e' he' => hfresh e' he' (g a) List.mem_cons_self) hrest

/-! ## The root -/

/-- Only a mapping without a local tag is read as a mapping. -/
theorem tagged_mapping {tag? : Option String} {x : Decode Value} {es : List (Value × Value)}
    (h : ((x >>= fun value =>
      match tag? with
      | some tag => pure (Value.tagged tag value)
      | none => pure value).run d).run k = .ok (.mapping es, k')) :
    tag? = none ∧ (x.run d).run k = .ok (.mapping es, k') := by
  obtain ⟨value, k₁, hvalue, h⟩ := run_bind_ok.1 h
  cases tag? with
  | some tag => cases h
  | none =>
    cases h
    exact ⟨rfl, hvalue⟩

/-- **A mapping is read from a mapping** without a local tag. -/
theorem valueWith_mapping {node : Node Nat} (hnode : ∀ number, node ≠ .alias number)
    {es : List (Value × Value)} (h : ((valueWith (some inner) path node).run d).run k
      = .ok (.mapping es, k')) :
    ∃ p entries, node = .mapping p entries ∧ p.tag.bind Tag.localName? = none ∧
      ((valueEntries inner path [] entries).run d).run k = .ok (es, k') := by
  rw [valueWith, run_located, run_bind_ok] at h
  have hfollow : follow node = pure node := by
    cases node with
    | «alias» number => exact absurd rfl (hnode number)
    | _ => rfl
  obtain ⟨node', k₁, hnode', h⟩ := h
  rw [hfollow] at hnode'
  cases hnode'
  dsimp only at h
  cases node with
  | «alias» number => exact absurd rfl (hnode number)
  | scalar p style text =>
    obtain ⟨-, h⟩ := tagged_mapping h
    rw [scalarValue] at h
    split at h <;> cases h
  | sequence p items =>
    obtain ⟨-, h⟩ := tagged_mapping h
    obtain ⟨items', -, h⟩ := run_map_ok.1 h
    cases h
  | mapping p entries =>
    obtain ⟨hlocal, h⟩ := tagged_mapping h
    obtain ⟨es', hes', h⟩ := run_map_ok.1 h
    cases h
    exact ⟨p, entries, rfl, hlocal, hes'⟩

end Decoder

/-! ## Documents -/

open Decoder Decode

theorem Document.decode_eq_ok_iff {α : Type} {decoder : Decoder α} {d : Document} {a : α} :
    d.decode decoder = .ok a ↔ ∃ k, ((decoder .root d.root).run d).run 0 = .ok (a, k) := by
  change ((decoder .root d.root).run d).run 0 >>= (fun r => Except.ok r.1) = _ ↔ _
  rw [bind_eq_ok_iff]
  constructor
  · rintro ⟨⟨a, k⟩, hrun, h⟩
    cases h
    exact ⟨k, hrun⟩
  · rintro ⟨k, hrun⟩
    exact ⟨(a, k), hrun, rfl⟩

theorem read_eq_ok_iff_of_parse {α : Type} {decoder : Decoder α} {text : String} {d : Document} {a : α}
    (hparse : Document.parse text = .ok d) :
    read decoder text = .ok a ↔ ∃ k, ((decoder .root d.root).run d).run 0 = .ok (a, k) := by
  have hmap : (d.decode decoder).mapError ReadError.mismatched = .ok a ↔ d.decode decoder = .ok a := by
    cases d.decode decoder <;> simp [Except.mapError]
  rw [read, hparse]
  exact hmap.trans Document.decode_eq_ok_iff

theorem read_eq_ok_iff {α : Type} {decoder : Decoder α} {text : String} {a : α} :
    read decoder text = .ok a ↔
      ∃ d k, Document.parse text = .ok d ∧ ((decoder .root d.root).run d).run 0 = .ok (a, k) := by
  cases hparse : Document.parse text with
  | error e =>
    rw [read, hparse]
    simp
  | ok d =>
    rw [read_eq_ok_iff_of_parse hparse]
    constructor
    · rintro ⟨k, h⟩
      exact ⟨d, k, rfl, h⟩
    · rintro ⟨_, k, ⟨⟩, h⟩
      exact ⟨k, h⟩

/-- The document of a root. -/
def Document.ofRoot (root : Node Nat) : Document where
  root := root
  anchored := root.anchored.reverse
  extent := root.extent

theorem Document.parse_eq_ok {text : String} {d : Document} (h : Document.parse text = .ok d) :
    ∃ ls node root ns, tokens text = .ok ls ∧ Node.ofTokens ls = .ok node ∧
      node.number [] = some (root, ns) ∧ d = .ofRoot root := by
  obtain ⟨ls, hls, h⟩ := bind_eq_ok_iff.1 h
  obtain ⟨node, hnode, h⟩ := bind_eq_ok_iff.1 h
  cases hroot : node.number [] with
  | none =>
    rw [hroot] at h
    cases h
  | some r =>
    rw [hroot] at h
    cases h
    exact ⟨ls, node, r.1, r.2, hls, hnode, hroot, rfl⟩

theorem Node.tag_numberProperties (ns : AnchorNumbers) (p : Properties String) :
    (numberProperties ns p).1.tag = p.tag := by
  unfold numberProperties
  split <;> rfl

/-- **What is read as a mapping** is a mapping without a local tag. -/
theorem read_mapping {text : String} {es : List (Value × Value)}
    (h : read Decoder.value text = .ok (.mapping es)) :
    ∃ ls p entries, tokens text = .ok ls ∧ Node.ofTokens ls = .ok (.mapping p entries) ∧
      p.tag.bind Tag.localName? = none ∧
        ∃ p' entries' ns k, (Node.mapping p entries).number [] = some (.mapping p' entries', ns) ∧
          ((valueEntries (valueWithin 127) .root [] entries').run (.ofRoot (.mapping p' entries'))).run
            0 = .ok (es, k) := by
  obtain ⟨d, k, hparse, hrun⟩ := read_eq_ok_iff.1 h
  obtain ⟨ls, node, root, ns, hls, hnode, hroot, rfl⟩ := Document.parse_eq_ok hparse
  -- A root that is an alias has no anchor in front of it, and the other nodes stay what they are.
  have hnumbered : (∀ number, root ≠ .alias number) ∧ ∀ p' entries', root = .mapping p' entries' →
      ∃ p entries, node = .mapping p entries ∧ p'.tag = p.tag := by
    cases node with
    | «alias» name => cases hroot
    | scalar p style text =>
      cases hroot
      exact ⟨by simp, by simp⟩
    | sequence p items =>
      obtain ⟨r, -, hr⟩ := Option.map_eq_some_iff.1 hroot
      cases hr
      exact ⟨by simp, by simp⟩
    | mapping p entries =>
      obtain ⟨r, -, hr⟩ := Option.map_eq_some_iff.1 hroot
      cases hr
      refine ⟨by simp, ?_⟩
      rintro p' entries' ⟨⟩
      exact ⟨p, entries, rfl, Node.tag_numberProperties [] p⟩
  obtain ⟨p', entries', rfl, htag, hentries⟩ := valueWith_mapping hnumbered.1 hrun
  obtain ⟨p, entries, rfl, hsame⟩ := hnumbered.2 p' entries' rfl
  rw [hsame] at htag
  exact ⟨ls, p, entries, hls, hnode, htag, p', entries', ns, k, hroot, hentries⟩

/-- **The keys of a mapping that is read are distinct.** -/
theorem distinctKeys_of_read {text : String} {es : List (Value × Value)}
    (h : read Decoder.value text = .ok (.mapping es)) : DistinctKeys es := by
  obtain ⟨-, -, -, -, -, -, p', entries', -, k, -, hrun⟩ := read_mapping h
  have hnone : DistinctKeys ([] : List (Value × Value)).reverse := List.Pairwise.nil
  exact valueEntries_distinct hnone hrun

/-! ## Documents with more entries -/

theorem Node.entriesExtent_append {ρ : Type} (es more : List (Node ρ × Node ρ)) :
    entriesExtent (es ++ more) = entriesExtent es + entriesExtent more := by
  induction es with
  | nil => rw [List.nil_append, entriesExtent, Nat.zero_add]
  | cons e es ih => simp only [List.cons_append, entriesExtent, ih, Nat.add_assoc]

theorem run_valueWith_mapping {inner : Decoder Value} {path : Path} {d : Document} {k k' : Nat}
    {entries : List (Node Nat × Node Nat)} {v : Value} :
    ((valueWith (some inner) path (.mapping {} entries)).run d).run k = .ok (v, k') ↔
      ∃ es, ((valueEntries inner path [] entries).run d).run k = .ok (es, k') ∧
        .mapping es = v := by
  rw [valueWith, run_located, run_bind_ok]
  constructor
  · rintro ⟨node, k₁, hnode, h⟩
    cases hnode
    obtain ⟨value, k₂, hvalue, h⟩ := run_bind_ok.1 h
    cases h
    exact run_map_ok.1 hvalue
  · rintro ⟨es, hes, rfl⟩
    exact ⟨_, k, rfl, run_bind_ok.2 ⟨_, k', run_map_ok.2 ⟨es, hes, rfl⟩, rfl⟩⟩

section Between

variable {text : String} {ls : List Lexeme} {before entries after : List (Node String × Node String)}
  {before' entries' after' : List (Node Nat × Node Nat)} {ns : AnchorNumbers} {k : Nat}
  {es es' es'' : List (Value × Value)}

theorem extends_between (entries' : List (Node Nat × Node Nat))
    (hbefore : Node.anchoredEntries before' = [])
    (hafter : Node.anchoredEntries after' = []) :
    (Document.ofRoot (.mapping {} entries')).Extends
      (.ofRoot (.mapping {} (before' ++ entries' ++ after'))) where
  anchored := by
    simp only [Document.ofRoot, Node.anchored, Node.anchoredEntries_append, hbefore, hafter,
      List.nil_append, List.append_nil]
    rfl
  extent := by
    simp only [Document.ofRoot, Node.extent, Node.entriesExtent_append]
    omega

/-- **The entries of a document between other entries.**  The three parts by themselves are read as
`es`, `es'` and `es''`; together they are read as one mapping exactly if no part has a key of the
parts in front of it. -/
theorem read_between_iff (htokens : tokens text = .ok ls)
    (hnode : Node.ofTokens ls = .ok (.mapping {} (before ++ entries ++ after)))
    (hbefore : Node.NumbersEntries before before') (hafter : Node.NumbersEntries after after')
    (hentries : Node.numberEntries [] entries = some (entries', ns))
    (hes : (valueEntries (valueWithin 127) .root [] before').Gives es)
    (hes' : ((valueEntries (valueWithin 127) .root [] entries').run
      (.ofRoot (.mapping {} entries'))).run 0 = .ok (es', k))
    (hes'' : (valueEntries (valueWithin 127) .root [] after').Gives es'') {v : Value} :
    read Decoder.value text = .ok v ↔
      FreshKeys es es' ∧ FreshKeys (es ++ es') es'' ∧ .mapping (es ++ es' ++ es'') = v := by
  have hroot : (Node.mapping {} (before ++ entries ++ after)).number []
      = some (.mapping {} (before' ++ entries' ++ after'), ns) := by
    have hall : Node.numberEntries [] (before ++ entries ++ after)
        = some (before' ++ entries' ++ after', ns) := by
      rw [List.append_assoc, Node.numberEntries_append (hbefore.number []),
        Node.numberEntries_append hentries, hafter.number, List.append_assoc]
      rfl
    rw [Node.number]
    dsimp only [Node.numberProperties]
    rw [hall]
    rfl
  have hcarries := carries_valueWithin 127
  have hextends := extends_between entries' hbefore.anchored hafter.anchored
  rw [read_eq_ok_iff_of_parse (Document.parse_eq htokens hnode hroot)]
  change (∃ k', ((valueWith (some (valueWithin 127)) .root _).run (Document.ofRoot _)).run 0 = _) ↔ _
  simp only [run_valueWith_mapping]
  generalize Document.ofRoot (.mapping {} (before' ++ entries' ++ after')) = d' at hextends ⊢
  have hself : d'.Extends d' := ⟨rfl, Nat.le_refl _⟩
  -- First the entries in front, then those of the document, then those behind.
  have hrun : ∀ r, ((valueEntries (valueWithin 127) .root [] (before' ++ entries' ++ after')).run
      d').run 0 = .ok r ↔
        FreshKeys es es' ∧ FreshKeys (es ++ es') es'' ∧ (es ++ es' ++ es'', k) = r := by
    intro r
    have hnone := freshKeys_nil es
    rw [List.append_assoc, ← List.append_nil after']
    change ((valueEntries _ .root ([] : List (Value × Value)).reverse _).run d').run 0 = _ ↔ _
    rw [valueEntries_append .root hcarries hself (hes d' 0), and_iff_right hnone, List.nil_append,
      valueEntries_append .root hcarries hextends hes',
      valueEntries_append .root hcarries hself (hes'' d' k)]
    change _ ∧ _ ∧ Except.ok (_, k) = _ ↔ _
    rw [List.reverse_reverse, Except.ok.injEq]
  constructor
  · rintro ⟨k', es₀, h, rfl⟩
    obtain ⟨hfresh, hfresh', h⟩ := (hrun _).1 h
    cases h
    exact ⟨hfresh, hfresh', rfl⟩
  · rintro ⟨hfresh, hfresh', rfl⟩
    exact ⟨k, _, (hrun _).2 ⟨hfresh, hfresh', rfl⟩, rfl⟩

end Between

end JobMatrix.Yaml
