import MiniGo.Proofs.Typing
/-!
How types are written. A type can be read off a text in one way only, whatever stands after it, so two
types that are written alike are one type.

Each text begins with a word that says what kind of type it is; no such word begins another, and none
begins like the marks that stand where a type could: dots, and the brackets around parameters and
results.
-/

namespace MiniGo.Ty

mutual

/-- Every variadic function in a type collects its last arguments in a slice. -/
def Proper : Ty → Prop
  | .slice elem | .chan _ elem => elem.Proper
  | .map key value => key.Proper ∧ value.Proper
  | .func params results variadic =>
    Signature.Proper ⟨params, results, variadic⟩ ∧ AllProper params ∧ AllProper results
  | _ => True

def AllProper : List Ty → Prop
  | [] => True
  | type :: types => type.Proper ∧ AllProper types

end

def opening : Ty → List Char
  | .bool => ['b', 'o', 'o', 'l']
  | .int => ['i', 'n', 't']
  | .float => ['f', 'l', 'o', 'a', 't', '6', '4']
  | .string => ['s', 't', 'r', 'i', 'n', 'g']
  | .slice _ => ['[', ']']
  | .map _ _ => ['m', 'a', 'p', '[']
  | .chan .both _ => ['c', 'h', 'a', 'n', ' ']
  | .chan .send _ => ['c', 'h', 'a', 'n', '<', '-', ' ']
  | .chan .recv _ => ['<', '-', 'c', 'h', 'a', 'n', ' ']
  | .func _ _ _ => ['f', 'u', 'n', 'c', '(']
  | .any => ['a', 'n', 'y']
  | .nil => ['n', 'i', 'l']

def body : Ty → List Char
  | .slice elem | .chan _ elem => elem.text.toList
  | .map key value => key.text.toList ++ ']' :: value.text.toList
  | .func params results variadic =>
    (paramsText variadic params).toList ++ ')' :: (resultsText results).toList
  | _ => []

theorem toList_text (type : Ty) : type.text.toList = type.opening ++ type.body := by
  rcases type with _ | _ | _ | _ | _ | _ | ⟨_ | _ | _, _⟩ | _ | _ | _ <;>
    simp [text, opening, body]

/-- The words that types begin with, and the marks that can stand in the place of a type. -/
def marks : List (List Char) :=
  [opening .bool, opening .int, opening .float, opening .string, opening .any, opening .nil,
    opening (.slice .nil), opening (.map .nil .nil), opening (.chan .both .nil),
    opening (.chan .send .nil), opening (.chan .recv .nil), opening (.func [] [] false),
    ['.', '.', '.'], ['('], [')']]

theorem opening_mem (type : Ty) : type.opening ∈ marks := by
  rcases type with _ | _ | _ | _ | _ | _ | ⟨_ | _ | _, _⟩ | _ | _ | _ <;>
    simp [opening, marks]

theorem marks_apart : ∀ first ∈ marks, ∀ second ∈ marks, first <+: second → first = second := by
  decide

theorem split_mark {first second rest rest' : List Char} (left : first ∈ marks)
    (right : second ∈ marks) (same : first ++ rest = second ++ rest') :
    first = second ∧ rest = rest' := by
  have alike : first = second := by
    rcases List.append_eq_append_iff.mp same with ⟨more, longer, _⟩ | ⟨more, longer, _⟩
    · exact marks_apart first left second right ⟨more, longer.symm⟩
    · exact (marks_apart second right first left ⟨more, longer.symm⟩).symm
  subst alike
  exact ⟨rfl, List.append_cancel_left same⟩

/-- What can stand after a type. A space would begin the results of a function. -/
def Ends (rest : List Char) : Prop := rest.head? ≠ some ' '

def Readable (type : Ty) : Prop :=
  ∀ (other : Ty) (rest rest' : List Char), other.Proper → Ends rest → Ends rest' →
    type.text.toList ++ rest = other.text.toList ++ rest' → type = other ∧ rest = rest'

theorem split_opening {left right : Ty} {rest rest' : List Char}
    (same : left.text.toList ++ rest = right.text.toList ++ rest') :
    left.opening = right.opening ∧ left.body ++ rest = right.body ++ rest' := by
  rw [toList_text, toList_text, List.append_assoc, List.append_assoc] at same
  exact split_mark left.opening_mem right.opening_mem same

theorem text_ne_mark {type : Ty} {rest rest' : List Char} (mark : List Char)
    (isMark : mark ∈ [['.', '.', '.'], ['('], [')']]) :
    type.text.toList ++ rest ≠ mark ++ rest' := by
  intro same
  have among : mark ∈ marks := by
    simp only [List.mem_cons, List.not_mem_nil, or_false] at isMark
    rcases isMark with rfl | rfl | rfl <;> decide
  rw [toList_text, List.append_assoc] at same
  obtain ⟨opens, -⟩ := split_mark type.opening_mem among same
  rw [← opens] at isMark
  rcases type with _ | _ | _ | _ | _ | _ | ⟨_ | _ | _, _⟩ | _ | _ | _ <;> simp [opening] at isMark

theorem eq_slice {other elem : Ty} (same : (slice elem).opening = other.opening) :
    ∃ elem', other = .slice elem' := by
  rcases other with _ | _ | _ | _ | _ | _ | ⟨_ | _ | _, _⟩ | _ | _ | _ <;> simp_all [opening]

theorem eq_map {other key value : Ty} (same : (map key value).opening = other.opening) :
    ∃ key' value', other = .map key' value' := by
  rcases other with _ | _ | _ | _ | _ | _ | ⟨_ | _ | _, _⟩ | _ | _ | _ <;> simp_all [opening]

theorem eq_chan {other elem : Ty} {direction : Direction}
    (same : (chan direction elem).opening = other.opening) : ∃ elem', other = .chan direction elem' := by
  rcases other with _ | _ | _ | _ | _ | _ | ⟨_ | _ | _, _⟩ | _ | _ | _ <;> cases direction <;>
    simp_all [opening]

theorem eq_func {other : Ty} {params results : List Ty} {variadic : Bool}
    (same : (func params results variadic).opening = other.opening) :
    ∃ params' results' variadic', other = .func params' results' variadic' := by
  rcases other with _ | _ | _ | _ | _ | _ | ⟨_ | _ | _, _⟩ | _ | _ | _ <;> simp_all [opening]

/-- A parameter as it is written: a type, behind dots if it collects the last arguments. -/
structure Item where
  dots : Bool
  type : Ty

namespace Item

def letters (item : Item) : List Char :=
  if item.dots then '.' :: '.' :: '.' :: item.type.text.toList else item.type.text.toList

def param (item : Item) : Ty := if item.dots then .slice item.type else item.type

def following : List Item → List Char
  | [] => []
  | item :: items => ',' :: ' ' :: (item.letters ++ following items)

def listed : List Item → List Char
  | [] => []
  | item :: items => item.letters ++ following items

end Item

def items (variadic : Bool) : List Ty → List Item
  | [] => []
  | [.slice elem] => if variadic then [⟨true, elem⟩] else [⟨false, .slice elem⟩]
  | [param] => [⟨false, param⟩]
  | param :: next :: rest => ⟨false, param⟩ :: items variadic (next :: rest)

theorem params_of_items (variadic : Bool) (params : List Ty) :
    (items variadic params).map Item.param = params := by
  fun_induction items variadic params with
  | case5 param next rest ih => simp [Item.param, ih]
  | _ => simp [Item.param]

theorem exists_items (variadic : Bool) (param : Ty) (rest : List Ty) :
    ∃ item others, items variadic (param :: rest) = item :: others := by
  cases same : items variadic (param :: rest) with
  | cons item others => exact ⟨item, others, rfl⟩
  | nil =>
    have none := params_of_items variadic (param :: rest)
    simp [same] at none

theorem toList_paramsText (variadic : Bool) (params : List Ty) :
    (paramsText variadic params).toList = Item.listed (items variadic params) := by
  fun_induction items variadic params with
  | case1 => rfl
  | case2 elem dots => simp [paramsText, Item.listed, Item.letters, Item.following, dots]
  | case3 elem plain => simp [paramsText, Item.listed, Item.letters, Item.following, text, plain]
  | case4 param other => simp [paramsText, Item.listed, Item.letters, Item.following]
  | case5 param next rest ih =>
    obtain ⟨item, others, same⟩ := exists_items variadic next rest
    rw [same] at ih ⊢
    simp [paramsText, ih, Item.listed, Item.letters, Item.following]

theorem variadic_of_items {variadic : Bool} {params : List Ty}
    (collects : variadic = true → ∃ elem, params.getLast? = some (.slice elem)) :
    (items variadic params).any (·.dots) = variadic := by
  fun_induction items variadic params with
  | case1 => simpa using collects
  | case2 elem dots => simp [dots]
  | case3 elem plain => simp [plain]
  | case4 param other =>
    cases variadic with
    | false => rfl
    | true =>
      obtain ⟨elem, last⟩ := collects rfl
      exact absurd (by simpa using last) (other elem)
  | case5 param next rest ih => simpa using ih (by simpa using collects)

theorem following_toList (types : List Ty) :
    (restText types).toList = Item.following (types.map (⟨false, ·⟩)) := by
  induction types with
  | nil => rfl
  | cons type types ih => simp [restText, Item.following, Item.letters, ih]

theorem getLast?_of_proper {params results : List Ty} {variadic : Bool}
    (proper : Signature.Proper ⟨params, results, variadic⟩) (isVariadic : variadic = true) :
    ∃ elem, params.getLast? = some (.slice elem) := by
  have isSome := proper isVariadic
  simp only [Signature.variadicElem?, isVariadic, if_true] at isSome
  split at isSome
  · exact ⟨_, by assumption⟩
  · simp at isSome

theorem AllProper.mem {types : List Ty} (proper : AllProper types) {type : Ty} (member : type ∈ types) :
    type.Proper := by
  induction types with
  | nil => cases member
  | cons first types ih =>
    rcases List.mem_cons.mp member with rfl | member
    · exact proper.1
    · exact ih proper.2 member

theorem ends_following (items : List Item) (rest : List Char) :
    Ends (Item.following items ++ ')' :: rest) := by
  cases items <;> simp [Ends, Item.following]

theorem Readable.elem {elem : Ty} (readable : (slice elem).Readable) : elem.Readable := by
  intro other rest rest' proper ends ends' same
  have both : (slice elem).text.toList ++ rest = (slice other).text.toList ++ rest' := by
    simp [text, same]
  obtain ⟨alike, rfl⟩ := readable (.slice other) rest rest' proper ends ends' both
  exact ⟨Ty.slice.inj alike, rfl⟩

namespace Item

variable {item other : Item} {rest rest' : List Char}

theorem split (readable : item.param.Readable) (proper : other.param.Proper) (ends : Ends rest)
    (ends' : Ends rest') (same : item.letters ++ rest = other.letters ++ rest') :
    item = other ∧ rest = rest' := by
  rcases item with ⟨_ | _, type⟩ <;> rcases other with ⟨_ | _, type'⟩
  · obtain ⟨rfl, rfl⟩ := readable type' rest rest' proper ends ends' same
    exact ⟨rfl, rfl⟩
  · exact absurd same (text_ne_mark ['.', '.', '.'] (by simp))
  · exact absurd same.symm (text_ne_mark ['.', '.', '.'] (by simp))
  · obtain ⟨rfl, rfl⟩ := readable.elem type' rest rest' proper ends ends' (by simpa [letters] using same)
    exact ⟨rfl, rfl⟩

theorem letters_ne_close : item.letters ++ rest ≠ ')' :: rest' := by
  rcases item with ⟨_ | _, type⟩
  · exact text_ne_mark [')'] (by simp)
  · simp [letters]

theorem following_split {items others : List Item} (readable : ∀ item ∈ items, item.param.Readable)
    (proper : ∀ other ∈ others, other.param.Proper)
    (same : following items ++ ')' :: rest = following others ++ ')' :: rest') :
    items = others ∧ rest = rest' := by
  induction items generalizing others with
  | nil => cases others <;> simp_all [following]
  | cons item items ih =>
    cases others with
    | nil => simp [following] at same
    | cons other others =>
      simp only [following, List.cons_append, List.append_assoc, List.cons.injEq, true_and] at same
      obtain ⟨rfl, others⟩ := split (readable item (.head _)) (proper other (.head _))
        (ends_following items rest) (ends_following others rest') same
      obtain ⟨rfl, rfl⟩ := ih (fun item member => readable item (.tail _ member))
        (fun other member => proper other (.tail _ member)) others
      exact ⟨rfl, rfl⟩

theorem listed_split {items others : List Item} (readable : ∀ item ∈ items, item.param.Readable)
    (proper : ∀ other ∈ others, other.param.Proper)
    (same : listed items ++ ')' :: rest = listed others ++ ')' :: rest') :
    items = others ∧ rest = rest' := by
  cases items with
  | nil =>
    cases others with
    | nil => simpa [listed] using same
    | cons other others => exact absurd (by simpa [listed] using same.symm) letters_ne_close
  | cons item items =>
    cases others with
    | nil => exact absurd (by simpa [listed] using same) letters_ne_close
    | cons other others =>
      refine following_split readable proper ?_
      simpa [listed, following] using same

end Item

theorem toList_resultsText (first second : Ty) (others : List Ty) :
    (resultsText (first :: second :: others)).toList =
      ' ' :: '(' :: (Item.listed ((first :: second :: others).map (⟨false, ·⟩)) ++ [')']) := by
  simp [resultsText, restText, following_toList, Item.listed, Item.following, Item.letters]

theorem ends_ne_results {result : Ty} {others : List Ty} {rest rest' : List Char} (ends : Ends rest) :
    (resultsText []).toList ++ rest ≠ (resultsText (result :: others)).toList ++ rest' := by
  rintro rfl
  cases others <;> simp [Ends, resultsText] at ends

theorem resultsText_one_ne {result first second : Ty} {others : List Ty} {rest rest' : List Char} :
    (resultsText [result]).toList ++ rest ≠
      (resultsText (first :: second :: others)).toList ++ rest' := by
  intro same
  rw [toList_resultsText] at same
  simp only [resultsText, String.toList_append, List.append_assoc] at same
  exact text_ne_mark ['('] (by simp) (List.cons.inj same).2

theorem results_split {results others : List Ty} {rest rest' : List Char}
    (readable : ∀ result ∈ results, result.Readable) (proper : ∀ other ∈ others, other.Proper)
    (ends : Ends rest) (ends' : Ends rest')
    (same : (resultsText results).toList ++ rest = (resultsText others).toList ++ rest') :
    results = others ∧ rest = rest' := by
  rcases results with _ | ⟨result, _ | ⟨next, results⟩⟩
  · cases others with
    | nil => exact ⟨rfl, same⟩
    | cons other others => exact absurd same (ends_ne_results ends)
  · rcases others with _ | ⟨other, _ | ⟨next, others⟩⟩
    · exact absurd same.symm (ends_ne_results ends')
    · obtain ⟨rfl, rfl⟩ := readable result (.head _) other rest rest' (proper other (.head _)) ends ends'
        (by simpa [resultsText] using same)
      exact ⟨rfl, rfl⟩
    · exact absurd same resultsText_one_ne
  · rcases others with _ | ⟨other, _ | ⟨next', others⟩⟩
    · exact absurd same.symm (ends_ne_results ends')
    · exact absurd same.symm resultsText_one_ne
    · rw [toList_resultsText, toList_resultsText] at same
      simp only [List.cons_append, List.append_assoc, List.nil_append, List.cons.injEq, true_and] at same
      obtain ⟨items, rfl⟩ := Item.listed_split (by simpa [Item.param] using readable)
        (by simpa [Item.param] using proper) same
      refine ⟨?_, rfl⟩
      have types := congrArg (List.map Item.type) items
      rwa [List.map_map, List.map_map, show Item.type ∘ (⟨false, ·⟩) = id from rfl, List.map_id,
        List.map_id] at types

namespace Readable

theorem word {type : Ty} (isWord : type ∈ [bool, int, float, string, any, nil]) : type.Readable := by
  intro other rest rest' _ _ _ same
  obtain ⟨opens, follows⟩ := split_opening same
  simp only [List.mem_cons, List.not_mem_nil, or_false] at isWord
  rcases isWord with rfl | rfl | rfl | rfl | rfl | rfl <;>
    rcases other with _ | _ | _ | _ | _ | _ | ⟨_ | _ | _, _⟩ | _ | _ | _ <;>
    simp_all [opening, body]

theorem slice {elem : Ty} (readable : elem.Readable) : (Ty.slice elem).Readable := by
  intro other rest rest' proper ends ends' same
  obtain ⟨opens, follows⟩ := split_opening same
  obtain ⟨elem', rfl⟩ := eq_slice opens
  obtain ⟨rfl, rfl⟩ := readable elem' rest rest' proper ends ends' follows
  exact ⟨rfl, rfl⟩

theorem chan {direction : Direction} {elem : Ty} (readable : elem.Readable) :
    (Ty.chan direction elem).Readable := by
  intro other rest rest' proper ends ends' same
  obtain ⟨opens, follows⟩ := split_opening same
  obtain ⟨elem', rfl⟩ := eq_chan opens
  obtain ⟨rfl, rfl⟩ := readable elem' rest rest' proper ends ends' follows
  exact ⟨rfl, rfl⟩

theorem map {key value : Ty} (readableKey : key.Readable) (readable : value.Readable) :
    (Ty.map key value).Readable := by
  intro other rest rest' proper ends ends' same
  obtain ⟨opens, follows⟩ := split_opening same
  obtain ⟨key', value', rfl⟩ := eq_map opens
  simp only [body, List.append_assoc, List.cons_append] at follows
  obtain ⟨rfl, bracket⟩ := readableKey key' _ _ proper.1 (by simp [Ends]) (by simp [Ends]) follows
  obtain ⟨rfl, rfl⟩ := readable value' rest rest' proper.2 ends ends' (List.cons.inj bracket).2
  exact ⟨rfl, rfl⟩

theorem func {params results : List Ty} {variadic : Bool}
    (proper : Signature.Proper ⟨params, results, variadic⟩)
    (readableParams : ∀ param ∈ params, param.Readable)
    (readableResults : ∀ result ∈ results, result.Readable) :
    (Ty.func params results variadic).Readable := by
  intro other rest rest' properOther ends ends' same
  obtain ⟨opens, follows⟩ := split_opening same
  obtain ⟨params', results', variadic', rfl⟩ := eq_func opens
  obtain ⟨proper', properParams, properResults⟩ := properOther
  simp only [body, toList_paramsText, List.append_assoc, List.cons_append] at follows
  have among {variadic : Bool} {params : List Ty} (item : Item) (member : item ∈ items variadic params) :
      item.param ∈ params := by
    rw [← params_of_items variadic params]
    exact List.mem_map_of_mem member
  obtain ⟨items, behind⟩ := Item.listed_split
    (fun item member => readableParams _ (among item member))
    (fun item member => properParams.mem (among item member)) follows
  obtain ⟨rfl, rfl⟩ := results_split readableResults (fun _ => properResults.mem) ends ends' behind
  have sameParams := congrArg (List.map Item.param) items
  rw [params_of_items, params_of_items] at sameParams
  have sameVariadic := congrArg (List.any · (·.dots)) items
  rw [variadic_of_items (getLast?_of_proper proper),
    variadic_of_items (getLast?_of_proper proper')] at sameVariadic
  exact ⟨by rw [sameParams, sameVariadic], rfl⟩

end Readable

mutual

theorem readable : ∀ type : Ty, type.Proper → type.Readable
  | .bool, _ | .int, _ | .float, _ | .string, _ | .any, _ | .nil, _ => .word (by simp)
  | .slice elem, proper => .slice (elem.readable proper)
  | .map key value, proper => .map (key.readable proper.1) (value.readable proper.2)
  | .chan _ elem, proper => .chan (elem.readable proper)
  | .func params results _, proper =>
    .func proper.1 (allReadable params proper.2.1) (allReadable results proper.2.2)

theorem allReadable : ∀ types : List Ty, AllProper types → ∀ type ∈ types, type.Readable
  | [], _ => by simp
  | first :: types, proper =>
    List.forall_mem_cons.mpr ⟨first.readable proper.1, allReadable types proper.2⟩

end

/-- Two types are written alike only if they are the same type. -/
theorem text_determines_type {left right : Ty} (proper : left.Proper) (proper' : right.Proper) :
    left.text = right.text ↔ left = right := by
  refine ⟨fun same => ?_, congrArg text⟩
  have letters : left.text.toList ++ [] = right.text.toList ++ [] := by rw [same]
  exact (left.readable proper right [] [] proper' (by simp [Ends]) (by simp [Ends]) letters).1

/-- A two-way channel of receiving channels and a sending channel of two-way ones, as the results of a
variadic function and within it: `func(chan <-chan int, ...any) func() (chan<- chan int, bool)`. -/
theorem text_determines_type_channels :
    let twoWay := chan .both (chan .recv int)
    let sending := chan .send (chan .both int)
    let left := func [twoWay, slice any] [func [] [sending, bool] false] true
    let right := func [sending, slice any] [func [] [twoWay, bool] false] true
    (left.Proper ∧ right.Proper) ∧ (left.text = right.text ↔ left = right) := by
  have proper (first second : Ty) (properFirst : first.Proper) (properSecond : second.Proper) :
      (func [first, slice any] [func [] [second, bool] false] true).Proper := by
    simp [Proper, AllProper, properFirst, properSecond, Signature.Proper, Signature.variadicElem?]
  have channels : (chan .both (chan .recv int)).Proper ∧ (chan .send (chan .both int)).Proper := by
    simp [Proper]
  refine ⟨⟨proper _ _ channels.1 channels.2, proper _ _ channels.2 channels.1⟩, ?_⟩
  exact text_determines_type (proper _ _ channels.1 channels.2) (proper _ _ channels.2 channels.1)

/-- Without a slice at the end, a variadic function is written like one that is not. -/
example : (func [int] [] true).text = (func [int] [] false).text := rfl

end MiniGo.Ty
