import JobMatrix.Proofs.Log
import JobMatrix.Proofs.Yaml.Opening

/-!
# The tags of a value

All tags that a value is written with are local: they start with `!`.  The events of a value have
only such tags, and so has the outline that the events describe.
-/

set_option autoImplicit false

namespace JobMatrix.Yaml

/-- No tag, or one that starts with `!`. -/
def IsLocalTag (tag : Option String) : Prop := ∀ name ∈ tag, ∃ cs, name.toList = '!' :: cs

theorem isLocalTag_none : IsLocalTag none := by
  intro name hname
  cases hname

/-! ## Events -/

namespace Event

/-- The tag of a scalar or of the start of a collection. -/
def tag? : Event → Option String
  | scalar tag _ _ | sequenceStart tag | mappingStart tag => tag
  | sequenceEnd | mappingEnd => none

end Event

namespace Value

/-- All tags are local. -/
def LocalEvents (events : List Event) : Prop := ∀ e ∈ events, IsLocalTag e.tag?

variable {es es' : List Event}

theorem LocalEvents.append (h : LocalEvents es) (h' : LocalEvents es') : LocalEvents (es ++ es') :=
  fun e he => (List.mem_append.1 he).elim (h e) (h' e)

theorem localEvents_nil : LocalEvents [] := by
  intro e he
  cases he

theorem LocalEvents.cons {e : Event} (he : IsLocalTag e.tag?) (h : LocalEvents es) :
    LocalEvents (e :: es) := by
  intro x hx
  rcases List.mem_cons.1 hx with rfl | hx
  · exact he
  · exact h x hx

theorem localEvents_singleton {e : Event} (he : IsLocalTag e.tag?) : LocalEvents [e] :=
  .cons he localEvents_nil

namespace Pending

/-- A tag is written behind `!` where it does not start with it. -/
theorem isLocalTag_tag? (pending : Pending) : IsLocalTag pending.tag? := by
  cases pending with
  | tag name =>
    intro written hwritten
    cases hwritten
    split
    · rename_i hstarts
      obtain ⟨cs, hcs⟩ := String.startsWith_string_iff.1 hstarts
      exact ⟨cs, hcs.symm⟩
    · exact ⟨name.toList, by simp⟩
  | _ => exact isLocalTag_none

theorem localEvents_announced (pending : Pending) : LocalEvents pending.announced := by
  cases pending with
  | start => exact localEvents_singleton isLocalTag_none
  | _ => exact localEvents_nil

end Pending

/-- The events of a scalar, with what was still to be announced. -/
theorem localEvents_leaf {pending : Pending} {style : ScalarStyle} {text : String}
    (h : Except.ok (ε := WriteError) (pending.announced ++ [.scalar pending.tag? style text])
      = .ok es) : LocalEvents es := by
  cases h
  exact pending.localEvents_announced.append (localEvents_singleton pending.isLocalTag_tag?)

/-- The events of a collection are those of what is inside and two more. -/
theorem LocalEvents.collection {finish : Event} (h : LocalEvents es) (start : Event)
    (hstart : IsLocalTag start.tag?) (hfinish : finish.tag? = none) :
    LocalEvents (start :: es ++ [finish]) :=
  (h.cons hstart).append (localEvents_singleton (hfinish ▸ isLocalTag_none))

mutual

theorem localEvents_eventsAfter : ∀ (v : Value) {pending : Pending} {es : List Event},
    v.eventsAfter pending = .ok es → LocalEvents es
  | null, _, _, h => localEvents_leaf h
  | boolean _, _, _, h => localEvents_leaf h
  | integer _, _, _, h => localEvents_leaf h
  | float _, _, _, h => localEvents_leaf h
  | string _, _, _, h => localEvents_leaf h
  | sequence items, pending, es, h => by
    obtain ⟨inner, hinner, h⟩ := bind_eq_ok_iff.1 h
    cases h
    rw [List.append_assoc]
    exact pending.localEvents_announced.append ((localEvents_itemEvents items hinner).collection
      (.sequenceStart pending.tag?) pending.isLocalTag_tag? rfl)
  | mapping [], pending, es, h => by
    cases h
    rw [List.append_assoc]
    exact pending.localEvents_announced.append (localEvents_nil.collection
      (.mappingStart pending.tag?) pending.isLocalTag_tag? rfl)
  | mapping [(key, value)], pending, es, h => by
    obtain ⟨inner, hinner, h⟩ := bind_eq_ok_iff.1 h
    have hvalue := localEvents_eventsAfter value hinner
    have hend : LocalEvents [.mappingEnd] := localEvents_singleton isLocalTag_none
    split at h
    · rename_i name _
      obtain ⟨first, hfirst, h⟩ := bind_eq_ok_iff.1 h
      cases h
      exact ((localEvents_eventsAfter key hfirst).append hvalue).collection
        (.mappingStart _) (Pending.tag name).isLocalTag_tag? rfl
    · obtain ⟨first, hfirst, h⟩ := bind_eq_ok_iff.1 h
      cases h
      exact ((localEvents_eventsAfter key hfirst).append hvalue).append hend
  | mapping (entry :: entry' :: entries), pending, es, h => by
    obtain ⟨inner, hinner, h⟩ := bind_eq_ok_iff.1 h
    cases h
    rw [List.append_assoc]
    exact pending.localEvents_announced.append
      ((localEvents_entryEvents (entry :: entry' :: entries) hinner).collection
        (.mappingStart pending.tag?) pending.isLocalTag_tag? rfl)
  | tagged tag value, pending, es, h => by
    cases pending with
    | tag name => cases h
    | _ => exact localEvents_eventsAfter value h

theorem localEvents_itemEvents : ∀ (items : List Value) {es : List Event},
    itemEvents items = .ok es → LocalEvents es
  | [], es, h => by
    cases h
    exact localEvents_nil
  | item :: items, es, h => by
    obtain ⟨first, hfirst, h⟩ := bind_eq_ok_iff.1 h
    obtain ⟨rest, hrest, h⟩ := bind_eq_ok_iff.1 h
    cases h
    exact (localEvents_eventsAfter item hfirst).append (localEvents_itemEvents items hrest)

theorem localEvents_entryEvents : ∀ (entries : List (Value × Value)) {es : List Event},
    entryEvents entries = .ok es → LocalEvents es
  | [], es, h => by
    cases h
    exact localEvents_nil
  | (key, value) :: entries, es, h => by
    obtain ⟨first, hfirst, h⟩ := bind_eq_ok_iff.1 h
    obtain ⟨second, hsecond, h⟩ := bind_eq_ok_iff.1 h
    obtain ⟨rest, hrest, h⟩ := bind_eq_ok_iff.1 h
    cases h
    exact ((localEvents_eventsAfter key hfirst).append (localEvents_eventsAfter value hsecond)).append
      (localEvents_entryEvents entries hrest)

end

end Value

/-! ## Outlines -/

namespace Outline

/-- The tags that a document may start with are local. -/
structure LocalTags (o : Outline) : Prop where
  tag : IsLocalTag o.tag?
  lead : IsLocalTag o.leadTag

variable {o : Outline}

/-- What is inside a collection that has started. -/
def Frame.LocalTags : Frame → Prop
  | .sequence tag _ => IsLocalTag tag
  | .mapping tag entries key =>
    IsLocalTag tag ∧ (∀ entry ∈ entries, IsLocalTag entry.1.tag?) ∧ ∀ o ∈ key, IsLocalTag o.tag?

namespace Progress

/-- All nodes so far have local tags. -/
structure LocalTags (p : Progress) : Prop where
  documents : ∀ o ∈ p.documents, o.LocalTags
  frames : ∀ frame ∈ p.frames, frame.LocalTags

variable {p p' : Progress}

theorem LocalTags.add (h : p.LocalTags) (ho : o.LocalTags) : (p.add o).LocalTags := by
  rw [Progress.add]
  split
  · refine ⟨fun x hx => ?_, h.frames⟩
    rcases List.mem_cons.1 hx with rfl | hx
    · exact ho
    · exact h.documents x hx
  all_goals
    rename_i hframes
    have hframe := h.frames _ (hframes ▸ List.mem_cons_self)
    refine ⟨h.documents, fun frame hmem => ?_⟩
    rcases List.mem_cons.1 hmem with rfl | hmem
    on_goal 2 => exact h.frames frame (hframes ▸ List.mem_cons_of_mem _ hmem)
  · exact hframe
  · exact ⟨hframe.1, hframe.2.1, fun x hx => by cases hx; exact ho.tag⟩
  · refine ⟨hframe.1, fun entry hentry => ?_, fun x hx => by cases hx⟩
    rcases List.mem_cons.1 hentry with rfl | hentry
    · exact hframe.2.2 _ rfl
    · exact hframe.2.1 entry hentry

/-- Behind a collection that has ended. -/
theorem LocalTags.tail {frame : Frame} {frames : List Frame} (h : p.LocalTags)
    (hframes : p.frames = frame :: frames) : LocalTags { p with frames } :=
  ⟨h.documents, fun x hx => h.frames x (hframes ▸ List.mem_cons_of_mem _ hx)⟩

theorem LocalTags.push {frame : Frame} (h : p.LocalTags) (hframe : frame.LocalTags) :
    LocalTags { p with frames := frame :: p.frames } :=
  ⟨h.documents, fun x hx => (List.mem_cons.1 hx).elim (fun hx => hx ▸ hframe) (h.frames x)⟩

/-- An event with a local tag adds no other tag. -/
theorem LocalTags.step {e : Event} (h : p.LocalTags) (he : IsLocalTag e.tag?)
    (hstep : p.step e = .ok p') : p'.LocalTags := by
  cases e with
  | scalar tag style text =>
    cases hstep
    exact h.add ⟨he, he⟩
  | sequenceStart tag =>
    cases hstep
    exact h.push he
  | mappingStart tag =>
    cases hstep
    exact h.push ⟨he, (fun _ hentry => by cases hentry), fun _ ho => by cases ho⟩
  | sequenceEnd =>
    rw [Progress.step] at hstep
    split at hstep
    · rename_i hframes
      cases hstep
      have hframe := h.frames _ (hframes ▸ List.mem_cons_self)
      exact (h.tail hframes).add ⟨hframe, hframe⟩
    · cases hstep
  | mappingEnd =>
    rw [Progress.step] at hstep
    split at hstep
    · rename_i tag entries frames hframes
      cases hstep
      obtain ⟨htag, hentries, -⟩ := h.frames _ (hframes ▸ List.mem_cons_self)
      refine (h.tail hframes).add ⟨htag, ?_⟩
      rw [leadTag.eq_def]
      split
      · rename_i key value rest heq
        obtain ⟨-, hreverse⟩ := Outline.mapping.inj heq
        exact hentries (key, value) (List.mem_reverse.1 (hreverse ▸ List.mem_cons_self))
      · exact htag
    · cases hstep

theorem LocalTags.run : ∀ {es : List Event} {p p' : Progress}, p.LocalTags →
    Value.LocalEvents es → es.foldlM Progress.step p = .ok p' → p'.LocalTags
  | [], p, p', h, _, hrun => by
    cases hrun
    exact h
  | e :: es, p, p', h, hes, hrun => by
    rw [List.foldlM_cons] at hrun
    obtain ⟨q, hq, hrun⟩ := bind_eq_ok_iff.1 hrun
    exact LocalTags.run (h.step (hes e List.mem_cons_self) hq)
      (fun x hx => hes x (List.mem_cons_of_mem _ hx)) hrun

end Progress

/-- **A document is written with local tags.** -/
theorem isLocalTag_leadTag {es : List Event} (hes : Value.LocalEvents es)
    (h : ofEvents es = .ok o) : IsLocalTag o.leadTag := by
  obtain ⟨p, hrun, h⟩ := bind_eq_ok_iff.1 h
  have hstart : Progress.LocalTags ⟨[], []⟩ :=
    ⟨(fun _ hx => by cases hx), fun _ hx => by cases hx⟩
  have hp := hstart.run hes hrun
  split at h
  · rename_i hdocuments _
    cases h
    exact (hp.documents o (hdocuments ▸ List.mem_cons_self)).lead
  · cases h

end Outline

end JobMatrix.Yaml
