import JobMatrix.Yaml.Read
import Mathlib.Data.List.Forall2

/-!
# What decoders give

`Decode.Gives` says that a computation succeeds in every document and follows no alias.  It is
handed on by the combinators that decoders are built from, so a decoder is shown to read a node
back in the order in which it is written.
-/

set_option autoImplicit false

namespace JobMatrix.Yaml

namespace Decode

variable {α β : Type} {x : Decode α} {a : α} {f : α → Decode β} {b : β}

/-- The computation gives this result wherever it runs, and follows no alias. -/
def Gives (x : Decode α) (a : α) : Prop := ∀ (d : Document) (k : Nat), (x.run d).run k = .ok (a, k)

theorem gives_pure (a : α) : Gives (pure a) a := fun _ _ => rfl

theorem Gives.bind (hx : Gives x a) (hf : Gives (f a) b) : Gives (x >>= f) b := by
  intro d k
  change (((x.run d).run k) >>= fun r => ((f r.1).run d).run r.2) = _
  rw [hx]
  exact hf d k

theorem Gives.map {f : α → β} (hx : Gives x a) : Gives (f <$> x) (f a) := by
  intro d k
  change (((x.run d).run k) >>= fun r => Except.ok (f r.1, r.2)) = _
  rw [hx]
  rfl

/-- The path that an error would be given does not matter. -/
theorem Gives.located (path : Path) (hx : Gives x a) : Gives (located path x) a := by
  intro d k
  change (tryCatch ((x.run d).run k) fun e => throw (e.locate path)) = _
  rw [hx]
  rfl

end Decode

namespace Decoder

open Decode

variable {path : Path}

theorem gives_textAs (expected : String) (p : Properties Nat) (style : ScalarStyle) (text : String) :
    (textAs expected path (.scalar p style text)).Gives text :=
  ((gives_pure _).bind (gives_pure _)).located path

theorem gives_items (expected : String) (p : Properties Nat) (items : List (Node Nat)) :
    (Decoder.items expected (.sequence p items)).Gives items :=
  (gives_pure _).bind (gives_pure _)

theorem gives_entries (expected : String) (p : Properties Nat) (es : List (Node Nat × Node Nat)) :
    (entries expected (.mapping p es)).Gives es :=
  (gives_pure _).bind (gives_pure _)

/-! ## Lists -/

/-- Items are read one by one, wherever they stand. -/
theorem gives_itemsFrom {α : Type} {item : Decoder α} {nodes : List (Node Nat)} {xs : List α}
    (h : List.Forall₂ (fun node x => ∀ path, (item path node).Gives x) nodes xs) (i : Nat) :
    (itemsFrom item path i nodes).Gives xs := by
  induction h generalizing i with
  | nil => exact gives_pure []
  | cons hx _ ih => exact (hx _).bind ((ih (i + 1)).bind (gives_pure _))

theorem gives_list {α : Type} {item : Decoder α} (p : Properties Nat) {nodes : List (Node Nat)}
    {xs : List α} (h : List.Forall₂ (fun node x => ∀ path, (item path node).Gives x) nodes xs) :
    (list item path (.sequence p nodes)).Gives xs :=
  ((gives_items _ p _).bind (gives_itemsFrom h 0)).located path

theorem gives_texts {style : ScalarStyle} (p : Properties Nat) (texts : List String) :
    (list text path (.sequence p (texts.map fun s => .scalar {} style s))).Gives texts :=
  gives_list p (List.forall₂_map_left_iff.2 (List.forall₂_same.2 fun s _ _ =>
    gives_textAs "a string" {} style s))

/-- Two texts. -/
theorem gives_textPair {style style' : ScalarStyle} (p q q' : Properties Nat) (a b : String) :
    (textPair path (.sequence p [.scalar q style a, .scalar q' style' b])).Gives (a, b) := by
  refine Gives.located path ((gives_items _ p _).bind
    ((gives_textAs "a string" q style a).bind ?_))
  exact (gives_textAs "a string" q' style' b).bind (gives_pure (a, b))

/-! ## Entries -/

theorem gives_foldEntries_nil {σ : Type} {expected : String} {entry : σ → String → Decoder σ}
    (s : σ) : (foldEntries expected entry path s []).Gives s :=
  gives_pure s

/-- One entry, and the others from the state behind it. -/
theorem gives_foldEntries_cons {σ : Type} {expected : String} {entry : σ → String → Decoder σ}
    {p : Properties Nat} {style : ScalarStyle} {name : String} {value : Node Nat}
    {es : List (Node Nat × Node Nat)} {s s' s'' : σ}
    (hentry : (entry s name (.key path name) value).Gives s')
    (hes : (foldEntries expected entry path s' es).Gives s'') :
    (foldEntries expected entry path s ((.scalar p style name, value) :: es)).Gives s'' :=
  (gives_textAs expected p style name).bind (hentry.bind hes)

/-- An entry that is read as a name and a value. -/
def GivesEntry {α : Type} (value : Decoder α) (e : Node Nat × Node Nat) (a : String × α) : Prop :=
  (∃ p style, e.1 = .scalar p style a.1) ∧ ∀ path, (value path e.2).Gives a.2

theorem gives_foldEntries_put {α : Type} {value : Decoder α}
    {entryOf : String × α → Node Nat × Node Nat} {l : List (String × α)}
    (h : ∀ a ∈ l, GivesEntry value (entryOf a) a) (acc : List (String × α)) :
    (foldEntries "a string" (fun acc name path node => do
      pure ((name, ← value path node) :: acc)) path acc (l.map entryOf)).Gives
        (l.reverse ++ acc) := by
  induction l generalizing acc with
  | nil => exact gives_foldEntries_nil acc
  | cons a l ih =>
    obtain ⟨⟨p, style, hkey⟩, hvalue⟩ := h a List.mem_cons_self
    have hentry : entryOf a = (.scalar p style a.1, (entryOf a).2) := Prod.ext hkey rfl
    rw [List.reverse_cons, List.append_assoc, List.singleton_append, List.map_cons, hentry]
    exact gives_foldEntries_cons ((hvalue _).bind (gives_pure _))
      (ih (fun b hb => h b (List.mem_cons_of_mem _ hb)) _)

/-- A map is read as its entries, in the order in which they stand. -/
theorem gives_textEntries {α : Type} {value : Decoder α}
    {entryOf : String × α → Node Nat × Node Nat} {l : List (String × α)} (p : Properties Nat)
    (h : ∀ a ∈ l, GivesEntry value (entryOf a) a) :
    (textEntries value path (.mapping p (l.map entryOf))).Gives l := by
  have hreverse : (l.reverse ++ []).reverse = l := by rw [List.append_nil, List.reverse_reverse]
  refine Gives.located path ((gives_entries "a map" p (l.map entryOf)).bind
    ((gives_foldEntries_put h []).bind ?_))
  rw [hreverse]
  exact gives_pure l

/-- The fields are read into a state, which is finished behind the last one. -/
theorem gives_fields {σ α : Type} {expected : String} {start s : σ}
    {field : σ → String → Decoder σ} {finish : σ → Decode α} {a : α} (p : Properties Nat)
    {es : List (Node Nat × Node Nat)}
    (hes : (foldEntries "field identifier" field path start es).Gives s)
    (hfinish : (finish s).Gives a) :
    (fields expected start field finish path (.mapping p es)).Gives a :=
  ((gives_entries expected p es).bind (hes.bind hfinish)).located path

/-- A field that has not been seen is taken. -/
theorem gives_once {α : Type} {name : String} {seen : Option α} {decoder : Decoder α} {a : α}
    {node : Node Nat} (hseen : seen = none) (h : (decoder path node).Gives a) :
    (once name seen decoder path node).Gives (some a) := by
  subst hseen
  exact h.map

end Decoder

/-- **What a decoder gives on the root is what it reads off the text.** -/
theorem read_eq {α : Type} {decoder : Decoder α} {text : String} {d : Document} {a : α}
    (hparse : Document.parse text = .ok d) (h : (decoder .root d.root).Gives a) :
    read decoder text = .ok a := by
  have hdecode : d.decode decoder = .ok a := by
    change (((decoder .root d.root).run d).run 0 >>= fun r => Except.ok r.1) = _
    rw [h d 0]
    rfl
  rw [read, hparse]
  dsimp only
  rw [hdecode]
  rfl

end JobMatrix.Yaml
