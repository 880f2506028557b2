/-
# Counters by name are counts of events

A tally is kept in the order of its names.  One record changes the counter of one outcome of one
name, which enters if it is new (`find?_record`), and it adds one to the sum of all counters
(`sum_record`).  So the tally of a list of events has for every name and outcome the number of such
events, no entry for a name without events, and as many counts as there are events.
-/
import Mathlib
import LargeNeighbourhood.Statistics

namespace LargeNeighbourhood

/-! ## 1. Counters of outcomes -/

namespace OutcomeCounts

/-- All counters together. -/
def total (c : OutcomeCounts) : Nat := c.toList.sum

theorem get_zero (o : Outcome) : ({} : OutcomeCounts).get o = 0 := by
  cases o <;> rfl

theorem total_eq (c : OutcomeCounts) :
    c.total = c.get .best + c.get .better + c.get .accept + c.get .reject := by
  simp only [total, toList, Outcome.all, List.map_cons, List.map_nil, List.sum_cons, List.sum_nil]
  omega

theorem total_bump (c : OutcomeCounts) (o : Outcome) : (c.bump o).total = c.total + 1 := by
  rw [total_eq, total_eq]
  cases o <;> simp only [get_bump] <;> simp <;> omega

/-- A row of counters is known by its counters. -/
theorem eq_of_get {c d : OutcomeCounts} (h : ∀ o, c.get o = d.get o) : c = d := by
  obtain ⟨best, better, accept, reject⟩ := c
  obtain rfl : best = d.best := h .best
  obtain rfl : better = d.better := h .better
  obtain rfl : accept = d.accept := h .accept
  obtain rfl : reject = d.reject := h .reject
  rfl

end OutcomeCounts

namespace Tally

variable {t : Tally} {name : String} {o : Outcome}

/-! ## 2. One record -/

/-- The names are ascending, so no two of them are the same. -/
def Ascending (t : Tally) : Prop := (t.map Prod.fst).Pairwise (· < ·)

/-- A record adds no other name than its own. -/
theorem mem_names_record {other : String} :
    other ∈ (record name o t).map Prod.fst ↔ other = name ∨ other ∈ t.map Prod.fst := by
  induction t with
  | nil => simp [record]
  | cons e rest ih =>
    obtain ⟨n, c⟩ := e
    rw [record]
    split
    · rename_i hn
      simp [hn]
    · split
      · simp
      · rw [List.map_cons, List.mem_cons, ih, List.map_cons, List.mem_cons]
        tauto

theorem Ascending.record (h : t.Ascending) (name : String) (o : Outcome) :
    (record name o t).Ascending := by
  induction t with
  | nil => exact List.pairwise_singleton _ _
  | cons e rest ih =>
    obtain ⟨n, c⟩ := e
    obtain ⟨hn, hrest⟩ := List.pairwise_cons.1 h
    rw [Tally.record]
    split
    · exact h
    · rename_i hne
      split
      · rename_i hlt
        refine List.pairwise_cons.2 ⟨?_, h⟩
        intro x hx
        rcases List.mem_cons.1 hx with rfl | hx
        · exact hlt
        · exact lt_trans hlt (hn x hx)
      · rename_i hnot
        refine List.pairwise_cons.2 ⟨?_, ih hrest⟩
        intro x hx
        rcases mem_names_record.1 hx with rfl | hx
        · exact lt_of_le_of_ne (not_lt.1 hnot) (Ne.symm hne)
        · exact hn x hx

/-- In a tally in order no entry has a name below the first. -/
theorem find?_eq_none_of_lt {n : String} {c : OutcomeCounts} {rest : Tally}
    (h : Ascending ((n, c) :: rest)) (hlt : name < n) :
    find? ((n, c) :: rest) name = none := by
  obtain ⟨hn, -⟩ := List.pairwise_cons.1 h
  rw [find?, List.lookup_eq_none_iff]
  intro e he
  rw [bne_iff_ne]
  rintro rfl
  rcases List.mem_cons.1 he with rfl | he
  · exact lt_irrefl _ hlt
  · exact lt_asymm hlt (hn _ (List.mem_map_of_mem he))

/-- **One record counts its outcome for its name**, and leaves all other names alone. -/
theorem find?_record (h : t.Ascending) (name : String) (o : Outcome) (other : String) :
    find? (record name o t) other =
      if other = name then some (((find? t name).getD {}).bump o) else find? t other := by
  induction t with
  | nil =>
    rw [record, find?, List.lookup_cons]
    by_cases hn : other = name
    · rw [if_pos hn, beq_iff_eq.2 hn]
      rfl
    · rw [if_neg hn, beq_eq_false_iff_ne.2 hn]
      rfl
  | cons e rest ih =>
    obtain ⟨n, c⟩ := e
    have hrest : Ascending rest := (List.pairwise_cons.1 h).2
    rw [record]
    split
    · rename_i hn
      by_cases ho : other = name
      · rw [if_pos ho, ho, hn]
        simp [find?]
      · have hne : ¬other = n := fun hother => ho (hother.trans hn.symm)
        rw [if_neg ho]
        simp [find?, List.lookup_cons, beq_eq_false_iff_ne.2 hne]
    · rename_i hne
      split
      · rename_i hlt
        rw [find?_eq_none_of_lt h hlt]
        by_cases ho : other = name
        · rw [if_pos ho, ho]
          simp [find?]
        · rw [if_neg ho]
          simp [find?, List.lookup_cons, beq_eq_false_iff_ne.2 ho]
      · have hskip : find? ((n, c) :: rest) name = find? rest name := by
          simp [find?, List.lookup_cons, beq_eq_false_iff_ne.2 hne]
        rw [hskip]
        by_cases ho : other = n
        · have hother : ¬other = name := fun hn => hne (hn.symm.trans ho)
          rw [if_neg hother, ho]
          simp [find?]
        · have hcons : ∀ t : Tally, find? ((n, c) :: t) other = find? t other := by
            intro t
            simp [find?, List.lookup_cons, beq_eq_false_iff_ne.2 ho]
          rw [hcons, hcons]
          exact ih hrest

/-- A measure of counters that each outcome raises by a fixed amount is raised by that amount. -/
theorem sum_record (measure : OutcomeCounts → Nat) (raise : Outcome → Nat)
    (hzero : measure {} = 0) (hbump : ∀ c o, measure (c.bump o) = measure c + raise o)
    (name : String) (o : Outcome) (t : Tally) :
    ((record name o t).map fun e => measure e.2).sum
      = (t.map fun e => measure e.2).sum + raise o := by
  induction t with
  | nil => simp [record, hzero, hbump]
  | cons e rest ih =>
    obtain ⟨n, c⟩ := e
    rw [record]
    split
    · simp only [List.map_cons, List.sum_cons, hbump]
      omega
    · split
      · simp only [List.map_cons, List.sum_cons, hbump, hzero]
        omega
      · simp only [List.map_cons, List.sum_cons, ih]
        omega

/-! ## 3. All events -/

/-- How often an outcome was counted for a name. -/
def count (t : Tally) (name : String) (o : Outcome) : Nat :=
  ((t.find? name).map fun c => c.get o).getD 0

/-- How often any outcome was counted for a name. -/
def total (t : Tally) (name : String) : Nat := ((t.find? name).map OutcomeCounts.total).getD 0

/-- How often an outcome was counted for any name. -/
def sum (t : Tally) (o : Outcome) : Nat := (t.map fun e => e.2.get o).sum

/-- How often anything was counted. -/
def size (t : Tally) : Nat := (t.map fun e => e.2.total).sum

/-- The tally of some events in order. -/
def ofEvents (events : List (String × Outcome)) : Tally :=
  events.foldl (fun t event => record event.1 event.2 t) []

variable {events : List (String × Outcome)}

theorem ofEvents_append (events more : List (String × Outcome)) :
    ofEvents (events ++ more)
      = more.foldl (fun t event => record event.1 event.2 t) (ofEvents events) := by
  rw [ofEvents, List.foldl_append]
  rfl

theorem ascending_ofEvents (events : List (String × Outcome)) : (ofEvents events).Ascending := by
  induction events using List.reverseRecOn with
  | nil => exact List.Pairwise.nil
  | append_singleton events event ih =>
    rw [ofEvents_append]
    exact ih.record event.1 event.2

/-- **A counter is the number of its events.** -/
theorem count_ofEvents (events : List (String × Outcome)) (name : String) (o : Outcome) :
    (ofEvents events).count name o = events.count (name, o) := by
  induction events using List.reverseRecOn with
  | nil => rfl
  | append_singleton events event ih =>
    obtain ⟨n, p⟩ := event
    rw [ofEvents_append, List.count_append, ← ih, count, count]
    simp only [List.foldl_cons, List.foldl_nil]
    rw [find?_record (ascending_ofEvents events)]
    by_cases hn : name = n
    · have hcount : ((Tally.find? (ofEvents events) n).getD {}).get o
          = ((Tally.find? (ofEvents events) n).map fun c => c.get o).getD 0 := by
        cases Tally.find? (ofEvents events) n with
        | none => exact OutcomeCounts.get_zero o
        | some c => rfl
      rw [if_pos hn, hn, Option.map_some, Option.getD_some, OutcomeCounts.get_bump, hcount]
      by_cases hp : p = o
      · simp [hp]
      · simp [hp]
    · have hne : ¬((n, p) = (name, o)) := fun heq => hn (congrArg Prod.fst heq).symm
      rw [if_neg hn, List.count_singleton, if_neg (by simpa using hne), Nat.add_zero]

/-- A name has an entry if and only if it has an event. -/
theorem find?_ofEvents_isSome (events : List (String × Outcome)) (name : String) :
    ((ofEvents events).find? name).isSome = true ↔ name ∈ events.map Prod.fst := by
  induction events using List.reverseRecOn with
  | nil => simp [ofEvents, find?]
  | append_singleton events event ih =>
    rw [ofEvents_append]
    simp only [List.foldl_cons, List.foldl_nil]
    rw [find?_record (ascending_ofEvents events), List.map_append, List.mem_append, ← ih]
    by_cases hn : name = event.1
    · simp [hn]
    · simp [hn]

theorem total_eq (t : Tally) (name : String) :
    t.total name = t.count name .best + t.count name .better + t.count name .accept +
      t.count name .reject := by
  unfold total count
  cases t.find? name with
  | none => rfl
  | some c => exact OutcomeCounts.total_eq c

/-- The events of a key are those with the four outcomes. -/
theorem count_keys {α : Type} [BEq α] [LawfulBEq α] (events : List (α × Outcome)) (key : α) :
    (events.map Prod.fst).count key = events.count (key, .best) + events.count (key, .better) +
      events.count (key, .accept) + events.count (key, .reject) := by
  induction events with
  | nil => rfl
  | cons event events ih =>
    obtain ⟨k, p⟩ := event
    simp only [List.map_cons, List.count_cons, beq_iff_eq, Prod.mk.injEq, ih]
    by_cases hk : k = key
    · cases p <;> simp [hk] <;> omega
    · simp [hk]

/-- **All counters together are as many as there are events**, and so are those of an outcome. -/
theorem size_ofEvents (events : List (String × Outcome)) :
    (ofEvents events).size = events.length := by
  induction events using List.reverseRecOn with
  | nil => rfl
  | append_singleton events event ih =>
    rw [ofEvents_append, List.length_append, ← ih]
    exact sum_record OutcomeCounts.total (fun _ => 1) rfl OutcomeCounts.total_bump _ _ _

theorem sum_ofEvents (events : List (String × Outcome)) (o : Outcome) :
    (ofEvents events).sum o = (events.map Prod.snd).count o := by
  induction events using List.reverseRecOn with
  | nil => rfl
  | append_singleton events event ih =>
    rw [ofEvents_append, List.map_append, List.count_append, ← ih]
    have hsum := sum_record (fun c => c.get o) (fun p => if p = o then 1 else 0)
      (OutcomeCounts.get_zero o) (fun c p => OutcomeCounts.get_bump c p o) event.1 event.2
      (ofEvents events)
    rw [List.map_cons, List.map_nil, List.count_singleton]
    simp only [List.foldl_cons, List.foldl_nil, beq_iff_eq]
    exact hsum

/-- **What is found for a name**: the numbers of its events, if it has any. -/
theorem find?_ofEvents_eq_some (events : List (String × Outcome)) (name : String)
    (c : OutcomeCounts) : (ofEvents events).find? name = some c ↔
      name ∈ events.map Prod.fst ∧ ∀ o, c.get o = events.count (name, o) := by
  have hget : ∀ c, (ofEvents events).find? name = some c →
      ∀ o, c.get o = events.count (name, o) := by
    intro c hc o
    rw [← count_ofEvents, count, hc, Option.map_some, Option.getD_some]
  rw [← find?_ofEvents_isSome]
  constructor
  · intro hc
    exact ⟨Option.isSome_of_mem hc, hget c hc⟩
  · rintro ⟨hsome, hc⟩
    obtain ⟨found, hfound⟩ := Option.isSome_iff_exists.1 hsome
    have heq : found = c :=
      OutcomeCounts.eq_of_get fun o => (hget found hfound o).trans (hc o).symm
    rw [hfound, heq]

/-! ## 4. The order of the events -/

/-- A tally in order holds the entries that are found. -/
theorem Ascending.mem_iff (h : t.Ascending) {e : String × OutcomeCounts} :
    e ∈ t ↔ t.find? e.1 = some e.2 := by
  induction t with
  | nil => simp [find?]
  | cons x rest ih =>
    obtain ⟨n, c⟩ := x
    obtain ⟨hn, hrest⟩ := List.pairwise_cons.1 h
    rw [List.mem_cons, ih hrest, find?, find?, List.lookup_cons]
    by_cases he : e.1 = n
    · have hnone : rest.lookup e.1 = none := by
        rw [List.lookup_eq_none_iff]
        intro y hy
        have hlt := hn y.1 (List.mem_map_of_mem hy)
        rw [he, bne_iff_ne]
        exact hlt.ne
      rw [hnone, beq_iff_eq.2 he]
      simp [Prod.ext_iff, he, eq_comm]
    · have hne : e ≠ (n, c) := fun heq => he (congrArg Prod.fst heq)
      rw [beq_eq_false_iff_ne.2 he]
      simp [hne]

/-- Tallies in order that answer alike are the same. -/
theorem Ascending.eq_of_find? {u : Tally} (h : t.Ascending) (hu : u.Ascending)
    (hsame : ∀ name, t.find? name = u.find? name) : t = u := by
  have : Std.Antisymm fun a b : String × OutcomeCounts => a.1 < b.1 :=
    ⟨fun _ _ hlt hgt => absurd hgt hlt.asymm⟩
  have : Std.Irrefl fun a b : String × OutcomeCounts => a.1 < b.1 := ⟨fun a => lt_irrefl a.1⟩
  refine (List.pairwise_map.1 h).eq_of_mem_iff (List.pairwise_map.1 hu) fun e => ?_
  rw [h.mem_iff, hu.mem_iff, hsame]

/-- **The order of events does not matter.** -/
theorem ofEvents_eq_of_perm {others : List (String × Outcome)} (h : events.Perm others) :
    ofEvents events = ofEvents others := by
  refine (ascending_ofEvents events).eq_of_find? (ascending_ofEvents others) fun name => ?_
  refine Option.ext fun c => ?_
  rw [find?_ofEvents_eq_some, find?_ofEvents_eq_some,
    (h.map Prod.fst).mem_iff]
  simp only [h.count_eq]

end Tally

end LargeNeighbourhood
