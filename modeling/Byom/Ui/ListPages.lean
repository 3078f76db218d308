import Mathlib.Data.List.Nodup
import Byom.Ui.InfiniteList

/-!
# The pages of a key

A key whose pages are linked by their tokens accumulates them in order. A fetch in flight
keeps every other one for the key away, so the page it is answered with is the next one.
-/

namespace Byom.Ui

universe u v

variable {T : Type u} {E : Type v}

/-- What `fetchPage` answers with for one key: each page names the next one, and the last
names none. -/
structure PageChain (T : Type u) where
  fetchPage : String → Page T
  pages : List (Page T)
  nonempty : 0 < pages.length
  first : ∀ page, pages[0]? = some page → fetchPage "" = page
  linked : ∀ (i : Nat) (page next : Page T), pages[i]? = some page → pages[i + 1]? = some next →
    fetchPage page.nextPageToken = next
  ends : ∀ (i : Nat) (page : Page T), pages[i]? = some page →
    (page.nextPageToken = "" ↔ i + 1 = pages.length)

namespace PageChain

variable {chain : PageChain T} {i : Nat} {page : Page T}

/-- The token of the page that follows the first `i`. -/
def token (chain : PageChain T) : Nat → String
  | 0 => ""
  | i + 1 => (chain.pages[i]?.map Page.nextPageToken).getD ""

theorem token_succ (found : chain.pages[i]? = some page) :
    chain.token (i + 1) = page.nextPageToken := by
  simp [token, found]

theorem pages_eq (hi : i < chain.pages.length) :
    chain.pages[i]? = some (chain.fetchPage (chain.token i)) := by
  have found := List.getElem?_eq_getElem hi
  cases i with
  | zero => rw [found, token, chain.first _ found]
  | succ i =>
    have before := List.getElem?_eq_getElem (Nat.lt_of_succ_lt hi)
    rw [found, token_succ before, chain.linked i _ _ before found]

end PageChain

namespace Pagination

variable {s s' : Pagination T E} {e : ListEvent T E} {key : String} {chain : PageChain T}

/-- The fetches for the key are answered from the chain. -/
def Answers (chain : PageChain T) (key : String) (s : Pagination T E) : ListEvent T E → Prop
  | .resolve n page => ∀ f ∈ s.fetches[n]?, f.key = key → page = chain.fetchPage f.pageToken
  | _ => True

instance [DecidableEq T] (chain : PageChain T) (key : String) (s : Pagination T E) :
    (e : ListEvent T E) → Decidable (Answers chain key s e)
  | .resolve n page => inferInstanceAs
    (Decidable (∀ f ∈ s.fetches[n]?, f.key = key → page = chain.fetchPage f.pageToken))
  | .mount _ | .unmount _ | .setKey _ _ | .loadMore _ | .reject _ _ | .setScrollY _ _ =>
    .isTrue trivial

/-- The entry of the key has the first pages of the chain and the token of the next one, and
is fetched at most once. -/
def Accumulated (chain : PageChain T) (key : String) (s : Pagination T E) : Prop :=
  ∃ k ≤ chain.pages.length,
    (s.cache key).items = (chain.pages.take k).flatMap Page.items ∧
      (s.cache key).pageToken = chain.token k ∧
        ((s.cache key).done = true ↔ k = chain.pages.length) ∧
          (s.fetches.countP fun f => f.key = key) ≤ 1

theorem Flights.countP_le (flights : Flights s) (key : String) :
    (s.fetches.countP fun f => f.key = key) ≤ 1 := by
  have count : (s.fetches.map Fetch.key).count key = s.fetches.countP fun f => f.key = key := by
    rw [List.count, List.countP_map]
    rfl
  rw [← count]
  exact List.nodup_iff_count_le_one.mp flights.once key

theorem step_accumulated (flights : Flights s) (accumulated : Accumulated chain key s)
    (answers : Answers chain key s e) (h : step s e = some s') : Accumulated chain key s' := by
  have one := (step_flights flights h).countP_le key
  obtain ⟨k, hk, items, token, done, _⟩ := accumulated
  by_cases answered : ∃ n page f, e = .resolve n page ∧ s.fetches[n]? = some f ∧ f.key = key
  · obtain ⟨n, page, f, rfl, awaited, rfl⟩ := answered
    have member := List.mem_of_getElem? awaited
    -- the list has more pages, and the fetch asks for the next one
    have more : k < chain.pages.length := by
      apply Nat.lt_of_le_of_ne hk
      intro all
      have open_ := flights.open_ f member
      rw [done.mpr all] at open_
      cases open_
    have found : chain.pages[k]? = some page := by
      rw [answers f awaited rfl, flights.token f member, token]
      exact PageChain.pages_eq more
    obtain ⟨g, awaited', rfl⟩ := Option.map_eq_some_iff.mp h
    obtain rfl : f = g := Option.some.inj (awaited.symm.trans awaited')
    refine ⟨k + 1, more, ?_, ?_, ?_, one⟩
    · rw [finish_cache, if_pos rfl, succeed_cache, if_pos rfl, List.take_add_one, found]
      simp [items]
    · rw [finish_cache, if_pos rfl, succeed_cache, if_pos rfl, PageChain.token_succ found]
    · rw [finish_cache, if_pos rfl, succeed_cache, if_pos rfl]
      simpa using chain.ends k page found
  · have same : (s'.cache key).pages = (s.cache key).pages :=
      step_pages h fun n page f resolved awaited own =>
        answered ⟨n, page, f, resolved, awaited, own⟩
    obtain ⟨items', rest⟩ := Prod.mk.inj same
    obtain ⟨token', done'⟩ := Prod.mk.inj rest
    exact ⟨k, hk, items'.trans items, token'.trans token, done' ▸ done, one⟩

/-- Whatever is mounted, loaded, switched or failed in between. -/
theorem pages_accumulate (chain : PageChain T) (key : String) (events : List (ListEvent T E))
    (answers : Transition.StepsMeet step (Answers chain key) ({} : Pagination T E) events) :
    Transition.Along step (Accumulated chain key) ({} : Pagination T E) events := by
  apply Transition.along_of_stepsMeet (I := fun s => Flights s ∧ Accumulated chain key s)
    (C := Answers chain key)
  · rintro s e s' ⟨flights, accumulated⟩ answers h
    exact ⟨step_flights flights h, step_accumulated flights accumulated answers h⟩
  · exact fun _ both => both.2
  · refine ⟨Flights.initial, 0, Nat.zero_le _, rfl, rfl, ?_, Nat.zero_le _⟩
    exact iff_of_false Bool.false_ne_true (Nat.ne_of_lt chain.nonempty)
  · exact answers

def twoPages : PageChain Nat where
  fetchPage token := if token = "" then ⟨[1, 2], "2"⟩ else ⟨[3], ""⟩
  pages := [⟨[1, 2], "2"⟩, ⟨[3], ""⟩]
  nonempty := by decide
  first := by simp
  linked i page next found follows := by
    match i with
    | 0 =>
      cases found
      cases follows
      rfl
    | i + 1 => simp at follows
  ends i page found := by
    match i with
    | 0 =>
      cases found
      decide
    | 1 =>
      cases found
      decide
    | i + 2 => simp at found

/-- Two lists, a failure and a switch of keys. -/
def crossed : List (ListEvent Nat String) :=
  [.mount "a", .mount "a", .loadMore 1, .resolve 0 ⟨[1, 2], "2"⟩, .loadMore 1,
    .setKey 0 "b", .reject 0 "offline", .loadMore 1, .resolve 1 ⟨[3], ""⟩, .loadMore 1]

theorem crossed_accumulates :
    Transition.Along step (Accumulated twoPages "a") ({} : Pagination Nat String) crossed :=
  pages_accumulate twoPages "a" crossed (by decide)

end Pagination

end Byom.Ui
