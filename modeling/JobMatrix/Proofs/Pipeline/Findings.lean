import JobMatrix.Pipeline.Verification
import JobMatrix.Proofs.Bindings
import JobMatrix.Proofs.Log
import JobMatrix.Proofs.Pipeline.Position

/-!
# What is found on each record

Verification walks through a matrix with a table of the names it has seen.  For each name the table
holds the first record that has it (`lookup_foldl_remember`), so what is found on a record depends
on that record and on those in front of it, and on nothing else:

* `filter_position_findingsFrom` cuts the findings on one record out of a report;
* `pairwise_findingsFrom` puts the findings in the order of the records.
-/

set_option autoImplicit false

namespace JobMatrix

namespace Finding

/-- The place of the record that a finding is about: of two records with one name, the later. -/
def position : Finding → Position
  | duplicateName _ _ second => second
  | conflictingBackends p => p
  | malformed p _ => p

inductive Kind
  | duplicateName
  | conflictingBackends
  | malformed
deriving DecidableEq, Repr

def kind : Finding → Kind
  | duplicateName _ _ _ => .duplicateName
  | conflictingBackends _ => .conflictingBackends
  | malformed _ _ => .malformed

end Finding

namespace Matrix

variable {seen : List (String × Position)} {ps : List (Position × Record)}

/-! ## One record -/

/-- The names seen behind a record.  A name stays with the first record that has it. -/
def remember (seen : List (String × Position)) (q : Position × Record) :
    List (String × Position) :=
  match q.2.jobName with
  | .error _ => seen
  | .ok name => if (seen.lookup name).isSome then seen else (name, q.1) :: seen

/-- What is found on the name of a record. -/
def nameFindings (seen : List (String × Position)) (q : Position × Record) : List Finding :=
  match q.2.jobName with
  | .error e => [.malformed q.1 e]
  | .ok name => ((seen.lookup name).map fun first => .duplicateName name first q.1).toList

/-- What is found on records, with the names seen in front of them. -/
def findingsFrom : List (String × Position) → List (Position × Record) → List Finding
  | _, [] => []
  | seen, q :: ps => q.2.findingsAt q.1 ++ nameFindings seen q ++ findingsFrom (remember seen q) ps

/-- A record is checked by itself and by its name. -/
theorem next_eq (c : Check) (q : Position × Record) :
    c.next q = ⟨remember c.seen q, c.jobsChecked + 1,
      c.findings ++ (q.2.findingsAt q.1 ++ nameFindings c.seen q)⟩ := by
  obtain ⟨p, r⟩ := q
  rw [Check.next, remember, nameFindings]
  dsimp only
  cases r.jobName with
  | error e => simp [Check.find]
  | ok name =>
    dsimp only
    cases c.seen.lookup name <;> simp [Check.find]

/-- **The walk through the records** keeps the table of names, counts, and adds what is found. -/
theorem foldl_next :
    ∀ (ps : List (Position × Record)) (c : Check),
      ps.foldl Check.next c = ⟨ps.foldl remember c.seen, c.jobsChecked + ps.length,
        c.findings ++ findingsFrom c.seen ps⟩
  | [], c => by rw [findingsFrom, List.append_nil]; rfl
  | q :: ps, c => by
    rw [List.foldl_cons, foldl_next ps, next_eq, findingsFrom, List.foldl_cons, List.length_cons,
      List.append_assoc, Nat.add_right_comm, Nat.add_assoc]

/-- **The report** has the number of the records and what is found on them. -/
theorem report_eq (m : Matrix) :
    m.report = { jobsChecked := m.flatten.length, findings := findingsFrom [] m.positioned } := by
  rw [report, foldl_next, ← map_snd_positioned, List.length_map, Nat.zero_add, List.nil_append]

theorem findings_verify (m : Matrix) : m.verify.value.findings = findingsFrom [] m.positioned := by
  change m.report.findings = _
  rw [report_eq]

theorem jobsChecked_verify (m : Matrix) : m.verify.value.jobsChecked = m.flatten.length := by
  change m.report.jobsChecked = _
  rw [report_eq]

theorem findingsFrom_append (qs : List (Position × Record)) :
    ∀ (ps : List (Position × Record)) (seen : List (String × Position)),
      findingsFrom seen (ps ++ qs) = findingsFrom seen ps ++ findingsFrom (ps.foldl remember seen) qs
  | [], _ => rfl
  | q :: ps, seen => by
    rw [List.cons_append, findingsFrom, findingsFrom, findingsFrom_append qs ps, List.foldl_cons]
    simp only [List.append_assoc]

/-! ## How often a record is reported -/

/-- How many findings of a kind are made on a record by itself, apart from its name. -/
def ownCount (r : Record) : Finding.Kind → Nat
  | .duplicateName => 0
  | .conflictingBackends => ((r.enabled? .gpuCuda).isSome && (r.enabled? .gpuHip).isSome).toNat
  | .malformed => (failureOf? r.checkVersions).isSome.toNat

/-- How many findings of a kind are made on the name of a record. -/
def nameCount (seen : List (String × Position)) (r : Record) : Finding.Kind → Nat
  | .duplicateName => (r.jobName.toOption.bind fun name => seen.lookup name).isSome.toNat
  | .conflictingBackends => 0
  | .malformed => (failureOf? r.jobName).isSome.toNat

theorem countP_findingsAt (kind : Finding.Kind) (r : Record) (p : Position) :
    (r.findingsAt p).countP (fun f => f.kind = kind) = ownCount r kind := by
  rw [Record.findingsAt, List.countP_append]
  cases kind <;> rw [ownCount] <;> cases r.checkVersions <;>
    cases (r.enabled? .gpuCuda).isSome && (r.enabled? .gpuHip).isSome <;> rfl

theorem countP_nameFindings (kind : Finding.Kind) (q : Position × Record) :
    (nameFindings seen q).countP (fun f => f.kind = kind) = nameCount seen q.2 kind := by
  rw [nameFindings]
  cases kind <;> rw [nameCount] <;> cases q.2.jobName with
  | error e => rfl
  | ok name => dsimp only [Except.toOption, Option.bind]; cases seen.lookup name <;> rfl

theorem countP_findingsFrom_cons (kind : Finding.Kind) (q : Position × Record) :
    (findingsFrom seen (q :: ps)).countP (fun f => f.kind = kind)
      = ownCount q.2 kind + nameCount seen q.2 kind
        + (findingsFrom (remember seen q) ps).countP fun f => f.kind = kind := by
  rw [findingsFrom, List.countP_append, List.countP_append, countP_findingsAt,
    countP_nameFindings]

/-! ## The table of names -/

theorem lookup_remember (seen : List (String × Position)) (q : Position × Record) (name : String) :
    (remember seen q).lookup name
      = (seen.lookup name).or (if q.2.jobName = .ok name then some q.1 else none) := by
  rw [remember]
  cases hname : q.2.jobName with
  | error e => simp
  | ok other =>
    simp only [Except.ok.injEq]
    split
    · rename_i hseen
      obtain ⟨first, hfirst⟩ := Option.isSome_iff_exists.1 hseen
      by_cases h : other = name
      · rw [← h, hfirst, Option.some_or]
      · rw [if_neg h, Option.or_none]
    · rename_i hseen
      have hnone : seen.lookup other = none := Option.not_isSome_iff_eq_none.1 hseen
      rw [Bindings.lookup_cons_eq]
      by_cases h : other = name
      · rw [if_pos h.symm, if_pos h, ← h, hnone, Option.none_or]
      · rw [if_neg (Ne.symm h), if_neg h, Option.or_none]

/-- **The table of names** holds the first record of each name. -/
theorem lookup_foldl_remember (name : String) :
    ∀ (ps : List (Position × Record)) (seen : List (String × Position)),
      (ps.foldl remember seen).lookup name
        = (seen.lookup name).or ((ps.find? fun q => q.2.jobName = .ok name).map Prod.fst)
  | [], seen => by simp
  | q :: ps, seen => by
    rw [List.foldl_cons, lookup_foldl_remember name ps, lookup_remember, List.find?_cons,
      Option.or_assoc]
    by_cases h : q.2.jobName = .ok name <;> simp [h]

/-! ## Positions -/

theorem position_of_mem_findingsAt {r : Record} {p : Position} {f : Finding}
    (h : f ∈ r.findingsAt p) : f.position = p := by
  rw [Record.findingsAt, List.mem_append] at h
  rcases h with h | h
  · split at h
    · rw [List.mem_singleton.1 h]; rfl
    · cases h
  · split at h
    · cases h
    · rw [List.mem_singleton.1 h]; rfl

theorem position_of_mem_nameFindings {q : Position × Record} {f : Finding}
    (h : f ∈ nameFindings seen q) : f.position = q.1 := by
  rw [nameFindings] at h
  split at h
  · rw [List.mem_singleton.1 h]; rfl
  · obtain ⟨first, -, rfl⟩ := Option.map_eq_some_iff.1 (Option.mem_toList.1 h)
    rfl

/-- Every finding is about one of the records. -/
theorem position_of_mem_findingsFrom {f : Finding} :
    ∀ {ps : List (Position × Record)} {seen : List (String × Position)},
      f ∈ findingsFrom seen ps → ∃ q ∈ ps, f.position = q.1
  | q :: ps, seen, h => by
    rw [findingsFrom, List.mem_append, List.mem_append] at h
    rcases h with (h | h) | h
    · exact ⟨q, List.mem_cons_self, position_of_mem_findingsAt h⟩
    · exact ⟨q, List.mem_cons_self, position_of_mem_nameFindings h⟩
    · obtain ⟨q', hq', hf⟩ := position_of_mem_findingsFrom h
      exact ⟨q', List.mem_cons_of_mem _ hq', hf⟩

theorem filter_position_eq_nil {fs : List Finding} {p : Position} (h : ∀ f ∈ fs, f.position ≠ p) :
    fs.filter (fun f => f.position = p) = [] := by
  rw [List.filter_eq_nil_iff]
  intro f hf
  simpa using h f hf

/-- **The findings on a record** are what is wrong with it by itself, and what the names in front
of it make of its name. -/
theorem filter_position_findingsFrom {before after : List (Position × Record)}
    {q : Position × Record} (hps : ps = before ++ q :: after)
    (hsorted : ps.Pairwise fun a b => a.1.Before b.1) :
    (findingsFrom seen ps).filter (fun f => f.position = q.1)
      = q.2.findingsAt q.1 ++ nameFindings (before.foldl remember seen) q := by
  have hother : ∀ a b : Position × Record, a.1.Before b.1 → a.1 ≠ b.1 := by
    intro a b h heq
    rw [heq] at h
    exact h.irrefl
  rw [hps, List.pairwise_append, List.pairwise_cons] at hsorted
  obtain ⟨-, ⟨hafter, -⟩, hbefore⟩ := hsorted
  have hfront : (findingsFrom seen before).filter (fun f => f.position = q.1) = [] := by
    refine filter_position_eq_nil fun f hf => ?_
    obtain ⟨a, ha, hposition⟩ := position_of_mem_findingsFrom hf
    rw [hposition]
    exact hother a q (hbefore a ha q List.mem_cons_self)
  have hback : (findingsFrom (remember (before.foldl remember seen) q) after).filter
      (fun f => f.position = q.1) = [] := by
    refine filter_position_eq_nil fun f hf => ?_
    obtain ⟨b, hb, hposition⟩ := position_of_mem_findingsFrom hf
    rw [hposition]
    exact (hother q b (hafter b hb)).symm
  have hown : ∀ f ∈ q.2.findingsAt q.1 ++ nameFindings (before.foldl remember seen) q,
      decide (f.position = q.1) = true := by
    intro f hf
    rcases List.mem_append.1 hf with hf | hf
    · exact decide_eq_true (position_of_mem_findingsAt hf)
    · exact decide_eq_true (position_of_mem_nameFindings hf)
  rw [hps, findingsFrom_append, findingsFrom, List.filter_append, List.filter_append, hfront,
    hback, List.filter_eq_self.2 hown, List.nil_append, List.append_nil]

/-- **Findings come in the order of the records.** -/
theorem pairwise_findingsFrom :
    ∀ {ps : List (Position × Record)} {seen : List (String × Position)},
      ps.Pairwise (fun a b => a.1.Before b.1) →
        (findingsFrom seen ps).Pairwise
          fun f g => f.position = g.position ∨ f.position.Before g.position
  | [], _, _ => .nil
  | q :: ps, seen, h => by
    obtain ⟨hq, hps⟩ := List.pairwise_cons.1 h
    have hown : ∀ f ∈ q.2.findingsAt q.1 ++ nameFindings seen q, f.position = q.1 := by
      intro f hf
      rcases List.mem_append.1 hf with hf | hf
      · exact position_of_mem_findingsAt hf
      · exact position_of_mem_nameFindings hf
    rw [findingsFrom, List.pairwise_append]
    refine ⟨List.pairwise_of_forall_mem_list fun f hf g hg => ?_, pairwise_findingsFrom hps,
      fun f hf g hg => ?_⟩
    · exact .inl ((hown f hf).trans (hown g hg).symm)
    · obtain ⟨b, hb, hposition⟩ := position_of_mem_findingsFrom hg
      rw [hown f hf, hposition]
      exact .inr (hq b hb)

end Matrix

end JobMatrix
