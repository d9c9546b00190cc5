import HtmlTemplate.Markup.Tree
/-!
Nodes in the order in which their tokens stand.  A listing tells of each node what it is, apart from
its children, and which elements it stands in.  The nodes that tokens come to are listed as the
tokens tell, and they are the only nodes that are.
-/

namespace HtmlTemplate.Markup

/-! ### Listings -/

/-- An element as its start tag tells it. -/
abbrev Opening := Text × Attributes

/-- What a node is, apart from its children. -/
inductive Item where
  | element (opening : Opening)
  | text (markup : Text)
  | comment (content : Text)

/-- A node in a listing, with the elements that it stands in, innermost first. -/
structure Entry where
  ancestors : List Opening
  item : Item

mutual

def listingOf (ancestors : List Opening) : Node → List Entry
  | .text markup => [⟨ancestors, .text markup⟩]
  | .comment content => [⟨ancestors, .comment content⟩]
  | .element tag attributes children =>
      ⟨ancestors, .element (tag, attributes)⟩ :: listing ((tag, attributes) :: ancestors) children

/-- The nodes of a forest, each before its children. -/
def listing (ancestors : List Opening) : List Node → List Entry
  | [] => []
  | node :: nodes => listingOf ancestors node ++ listing ancestors nodes

end

theorem listing_append (ancestors : List Opening) (first second : List Node) :
    listing ancestors (first ++ second) = listing ancestors first ++ listing ancestors second := by
  induction first with
  | nil => rfl
  | cons node first ih => rw [List.cons_append, listing, listing, ih, List.append_assoc]

theorem listing_singleton (ancestors : List Opening) (node : Node) :
    listing ancestors [node] = listingOf ancestors node := by
  rw [listing, listing, List.append_nil]

mutual

theorem suffix_of_mem_listingOf {ancestors : List Opening} (node : Node) {entry : Entry}
    (h : entry ∈ listingOf ancestors node) : ancestors <:+ entry.ancestors := by
  cases node with
  | text markup =>
      rw [listingOf, List.mem_singleton] at h
      exact h ▸ List.suffix_refl ancestors
  | comment content =>
      rw [listingOf, List.mem_singleton] at h
      exact h ▸ List.suffix_refl ancestors
  | element tag attributes children =>
      rw [listingOf] at h
      rcases List.mem_cons.mp h with rfl | h
      · exact List.suffix_refl ancestors
      · exact (List.suffix_cons _ _).trans (suffix_of_mem_listing children h)
termination_by sizeOf node

theorem suffix_of_mem_listing {ancestors : List Opening} (nodes : List Node) {entry : Entry}
    (h : entry ∈ listing ancestors nodes) : ancestors <:+ entry.ancestors := by
  cases nodes with
  | nil =>
      rw [listing] at h
      cases h
  | cons node nodes =>
      rw [listing] at h
      rcases List.mem_append.mp h with h | h
      · exact suffix_of_mem_listingOf node h
      · exact suffix_of_mem_listing nodes h
termination_by sizeOf nodes

end

/-- A node is listed first, and what is listed below it has further ancestors. -/
theorem exists_listingOf (ancestors : List Opening) (node : Node) :
    ∃ item below, listingOf ancestors node = ⟨ancestors, item⟩ :: below ∧
      (∀ text, item = .text text → node = .text text) ∧
      ∀ entry ∈ below, entry.ancestors ≠ ancestors := by
  cases node with
  | text markup =>
      refine ⟨.text markup, [], rfl, ?_, by simp⟩
      rintro text ⟨⟩
      rfl
  | comment content => exact ⟨.comment content, [], rfl, by simp, by simp⟩
  | element tag attributes children =>
      refine ⟨_, _, by rw [listingOf], by simp, fun entry hentry heq => ?_⟩
      have hlength := (suffix_of_mem_listing children hentry).length_le
      rw [heq, List.length_cons] at hlength
      omega

/-! ### Nodes with one listing -/

theorem head?_listing {ancestors : List Opening} {nodes : List Node} {entry : Entry}
    (h : (listing ancestors nodes).head? = some entry) : entry.ancestors = ancestors := by
  cases nodes with
  | nil => cases h
  | cons node nodes =>
      obtain ⟨item, below, hnode, -, -⟩ := exists_listingOf ancestors node
      rw [listing, hnode] at h
      cases h
      rfl

/-- What is listed below a node ends where the next entry has the ancestors of the node. -/
theorem takeWhile_below {ancestors : List Opening} {below : List Entry} (nodes : List Node)
    (h : ∀ entry ∈ below, entry.ancestors ≠ ancestors) :
    (below ++ listing ancestors nodes).takeWhile (fun entry => entry.ancestors ≠ ancestors) =
      below := by
  rw [List.takeWhile_append_of_pos (by simpa using h)]
  cases hlisting : listing ancestors nodes with
  | nil => rw [List.takeWhile_nil, List.append_nil]
  | cons entry entries =>
      have hentry : entry.ancestors = ancestors := head?_listing (by rw [hlisting]; rfl)
      rw [List.takeWhile_cons_of_neg (by simpa using hentry), List.append_nil]

theorem listing_cons_inj {ancestors : List Opening} {node other : Node} {nodes others : List Node}
    (h : listing ancestors (node :: nodes) = listing ancestors (other :: others)) :
    listingOf ancestors node = listingOf ancestors other ∧
      listing ancestors nodes = listing ancestors others := by
  obtain ⟨item, below, hnode, -, hbelow⟩ := exists_listingOf ancestors node
  obtain ⟨item', below', hother, -, hbelow'⟩ := exists_listingOf ancestors other
  rw [listing, listing, hnode, hother, List.cons_append, List.cons_append] at h
  obtain ⟨hitem, hrest⟩ := List.cons_eq_cons.mp h
  have hsame : below = below' := by
    rw [← takeWhile_below nodes hbelow, hrest, takeWhile_below others hbelow']
  rw [hsame] at hrest hnode
  rw [hnode, hother, hitem]
  exact ⟨rfl, List.append_cancel_left hrest⟩

/-- A listing tells the nodes. -/
theorem listing_injective {ancestors : List Opening} (nodes others : List Node)
    (h : listing ancestors nodes = listing ancestors others) : nodes = others := by
  cases nodes with
  | nil =>
      cases others with
      | nil => rfl
      | cons other others =>
          obtain ⟨item, below, hother, -⟩ := exists_listingOf ancestors other
          rw [listing, listing, hother] at h
          cases h
  | cons node nodes =>
      cases others with
      | nil =>
          obtain ⟨item, below, hnode, -⟩ := exists_listingOf ancestors node
          rw [listing, listing, hnode] at h
          cases h
      | cons other others =>
          obtain ⟨hnode, hnodes⟩ := listing_cons_inj h
          rw [listing_injective nodes others hnodes]
          cases node <;> cases other <;> rw [listingOf, listingOf] at hnode <;>
            simp only [List.cons.injEq, Entry.mk.injEq, Item.element.injEq, Item.text.injEq,
              Item.comment.injEq, Prod.mk.injEq, reduceCtorEq, true_and, and_true, and_false,
              false_and] at hnode
          · obtain ⟨⟨rfl, rfl⟩, hchildren⟩ := hnode
            rw [listing_injective _ _ hchildren]
          · rw [hnode]
          · rw [hnode]
termination_by sizeOf nodes

/-! ### Texts that are one -/

section Joining

variable {α : Type} (join? : α → α → Option α)

/-- Puts something at the end of a list, as one with what stands there if the two can be joined. -/
def addJoined (list : List α) (a : α) : List α :=
  match list.getLast?.bind fun last => join? last a with
  | some both => list.dropLast ++ [both]
  | none => list ++ [a]

def joined (list : List α) : List α := list.foldl (addJoined join?) []

variable {join?}

theorem addJoined_of_some {list : List α} {last a both : α} (h : join? last a = some both) :
    addJoined join? (list ++ [last]) a = list ++ [both] := by
  rw [addJoined, List.getLast?_concat, Option.bind_some, h, List.dropLast_concat]

theorem addJoined_of_none {list : List α} {a : α}
    (h : ∀ last, list.getLast? = some last → join? last a = none) :
    addJoined join? list a = list ++ [a] := by
  rw [addJoined, Option.bind_eq_none_iff.mpr h]

theorem joined_append (first second : List α) :
    joined join? (first ++ second) = second.foldl (addJoined join?) (joined join? first) :=
  List.foldl_append

end Joining

namespace Item

def join? : Item → Item → Option Item
  | .text first, .text second => some (.text (first ++ second))
  | _, _ => none

theorem join?_eq_some {first second both : Item} (h : first.join? second = some both) :
    ∃ s t, first = .text s ∧ second = .text t ∧ both = .text (s ++ t) := by
  cases first <;> cases second <;> cases h
  exact ⟨_, _, rfl, rfl, rfl⟩

theorem join?_text (s t : Text) : join? (.text s) (.text t) = some (.text (s ++ t)) := rfl

theorem addJoined_text_text (items : List Item) (s t : Text) :
    addJoined join? (addJoined join? items (.text s)) (.text t) =
      addJoined join? items (.text (s ++ t)) := by
  by_cases htext : ∃ u, items.getLast? = some (.text u)
  · obtain ⟨u, hlast⟩ := htext
    obtain ⟨before, rfl⟩ := List.getLast?_eq_some_iff.mp hlast
    rw [addJoined_of_some (join?_text u s), addJoined_of_some (join?_text (u ++ s) t),
      addJoined_of_some (join?_text u (s ++ t)), List.append_assoc]
  · have hnone (v : Text) : addJoined join? items (.text v) = items ++ [.text v] := by
      refine addJoined_of_none fun last hlast => ?_
      cases last with
      | text u => exact absurd ⟨u, hlast⟩ htext
      | element opening => rfl
      | comment content => rfl
    rw [hnone, hnone, addJoined_of_some (join?_text s t)]

end Item

namespace Entry

/-- Two texts are one if they stand in the same elements. -/
def join? (first second : Entry) : Option Entry :=
  if first.ancestors = second.ancestors then
    (first.item.join? second.item).map (Entry.mk first.ancestors)
  else none

theorem join?_eq_none {first second : Entry}
    (h : first.ancestors = second.ancestors → first.item.join? second.item = none) :
    first.join? second = none := by
  unfold join?
  split
  · next heq => rw [h heq, Option.map_none]
  · rfl

/-- Texts that are one in a listing are one where it is read without ancestors. -/
theorem joined_map_item (entries : List Entry) :
    joined Item.join? ((joined join? entries).map Entry.item) =
      joined Item.join? (entries.map Entry.item) := by
  suffices h : ∀ before, joined Item.join? ((entries.foldl (addJoined join?) before).map item) =
      joined Item.join? ((before ++ entries).map item) from h []
  induction entries with
  | nil => intro before; rw [List.append_nil, List.foldl_nil]
  | cons entry entries ih =>
      intro before
      have hone : joined Item.join? ((addJoined join? before entry).map item) =
          joined Item.join? ((before ++ [entry]).map item) := by
        unfold addJoined
        split
        · next both hboth =>
            obtain ⟨last, hlast, hjoin⟩ := Option.bind_eq_some_iff.mp hboth
            obtain ⟨start, rfl⟩ := List.getLast?_eq_some_iff.mp hlast
            unfold join? at hjoin
            split at hjoin
            · obtain ⟨text, htext, rfl⟩ := Option.map_eq_some_iff.mp hjoin
              obtain ⟨s, t, hs, ht, rfl⟩ := Item.join?_eq_some htext
              simp only [List.dropLast_concat, List.map_append, List.map_cons, List.map_nil,
                joined_append, List.foldl_cons, List.foldl_nil, hs, ht, Item.addJoined_text_text]
            · cases hjoin
        · rfl
      rw [List.foldl_cons, ih, List.map_append, joined_append, hone, ← joined_append,
        ← List.map_append, List.append_assoc]
      rfl

end Entry

/-! ### What tokens tell -/

namespace Token

/-- The elements still open after a token.  An end tag closes the innermost open element of its name
and whatever was opened inside. -/
def openAfter (opened : List Opening) : Token → List Opening
  | .startTag tag attributes selfClosing =>
      if selfClosing || isVoidTag tag then opened else (tag, attributes) :: opened
  | .endTag tag =>
      if tag ∈ opened.map Prod.fst then (opened.dropWhile fun e => e.1 ≠ tag).tail else opened
  | .text _ _ | .comment _ => opened

/-- What a token puts where it stands. -/
def item? (opened : List Opening) : Token → Option Item
  | .startTag tag attributes _ => some (.element (tag, attributes))
  | .endTag _ => none
  | .text source decoded =>
      let markup := if opened.head?.any fun e => isVerbatimTag e.1 then decoded
        else Forest.storedText source decoded
      if markup.isEmpty then none else some (.text markup)
  | .comment content => some (.comment content)

/-- What tokens put where they stand, each with the elements that are open there. -/
def listing (opened : List Opening) : List Token → List Entry
  | [] => []
  | token :: tokens =>
      (token.item? opened).toList.map (Entry.mk opened) ++
        listing (token.openAfter opened) tokens

end Token

/-! ### Forests under construction -/

def OpenElement.opening (e : OpenElement) : Opening := (e.tag, e.attributes)

namespace Forest

def pathOf (unclosed : List OpenElement) : List Opening := unclosed.map OpenElement.opening

def path (forest : Forest) : List Opening := pathOf forest.unclosed

/-- The nodes that are finished, and the open elements with what they hold so far. -/
def listingFrom (roots : List Node) : List OpenElement → List Entry
  | [] => Markup.listing [] roots
  | e :: outer =>
      listingFrom roots outer ++ ⟨pathOf outer, .element e.opening⟩ ::
        Markup.listing (e.opening :: pathOf outer) e.children

def listing (forest : Forest) : List Entry := listingFrom forest.roots forest.unclosed

theorem path_modifySiblings (forest : Forest) (f : List Node → List Node) :
    (forest.modifySiblings f).path = forest.path := by
  obtain ⟨roots, _ | ⟨e, outer⟩⟩ := forest <;> rfl

theorem listing_attach (forest : Forest) (node : Node) :
    (forest.attach node).listing = forest.listing ++ listingOf forest.path node := by
  obtain ⟨roots, _ | ⟨e, outer⟩⟩ := forest
  · show Markup.listing [] (roots ++ [node]) = _
    rw [listing_append, listing_singleton]
    rfl
  · show _ ++ _ :: Markup.listing _ (e.children ++ [node]) = _
    rw [listing_append, listing_singleton, ← List.cons_append, ← List.append_assoc]
    rfl

/-- A text is added to the siblings as it is to their listing.  What was listed before them does not
end in a text in the same place. -/
theorem listing_appendText {ancestors : List Opening} {before : List Entry} {nodes : List Node}
    {text : Text} (h : ∀ last, before.getLast? = some last →
      last.join? ⟨ancestors, .text text⟩ = none) :
    addJoined Entry.join? (before ++ Markup.listing ancestors nodes) ⟨ancestors, .text text⟩ =
      before ++ Markup.listing ancestors (appendText text nodes) := by
  have hjoin (previous : Text) : Entry.join? ⟨ancestors, .text previous⟩ ⟨ancestors, .text text⟩ =
      some ⟨ancestors, .text (previous ++ text)⟩ := by
    rw [Entry.join?, if_pos rfl]
    rfl
  unfold appendText
  split
  · next previous hlast =>
      obtain ⟨others, rfl⟩ := List.getLast?_eq_some_iff.mp hlast
      rw [List.dropLast_concat, listing_append, listing_append, listing_singleton,
        listing_singleton, listingOf, listingOf, ← List.append_assoc, addJoined_of_some (hjoin _),
        List.append_assoc]
  · next hlast =>
      rw [addJoined_of_none, listing_append, listing_singleton, listingOf, List.append_assoc]
      intro last hend
      obtain rfl | ⟨others, node, rfl⟩ := List.eq_nil_or_concat nodes
      · rw [Markup.listing, List.append_nil] at hend
        exact h last hend
      · obtain ⟨item, below, hnode, htext, hbelow⟩ := exists_listingOf ancestors node
        rw [List.concat_eq_append, listing_append, listing_singleton, hnode, ← List.append_assoc,
          List.getLast?_append, List.getLast?_eq_some_getLast (List.cons_ne_nil _ _),
          Option.some_or] at hend
        have hmem := List.getLast_mem (List.cons_ne_nil ⟨ancestors, item⟩ below)
        rw [Option.some.inj hend] at hmem
        rcases List.mem_cons.mp hmem with rfl | hmem
        · cases item with
          | text previous =>
              refine absurd ?_ (hlast previous)
              rw [htext previous rfl, List.concat_eq_append, List.getLast?_concat]
          | element opening => exact Entry.join?_eq_none fun _ => rfl
          | comment content => exact Entry.join?_eq_none fun _ => rfl
        · exact Entry.join?_eq_none fun heq => absurd heq (hbelow last hmem)

theorem listing_attachText (forest : Forest) {text : Text} (h : text ≠ []) :
    (forest.attachText text).listing =
      addJoined Entry.join? forest.listing ⟨forest.path, .text text⟩ := by
  rw [attachText, if_neg (by simpa using h)]
  obtain ⟨roots, _ | ⟨e, outer⟩⟩ := forest
  · have hadd : addJoined Entry.join? ([] ++ Markup.listing [] roots) ⟨[], .text text⟩ =
        [] ++ Markup.listing [] (appendText text roots) :=
      listing_appendText fun last hlast => by cases hlast
    exact hadd.symm
  · let before := listingFrom roots outer ++ [Entry.mk (pathOf outer) (.element e.opening)]
    have hbefore : ∀ last, before.getLast? = some last →
        last.join? ⟨e.opening :: pathOf outer, .text text⟩ = none := by
      intro last hlast
      rw [List.getLast?_concat] at hlast
      cases hlast
      exact Entry.join?_eq_none fun _ => rfl
    have hadd : addJoined Entry.join? (before ++ Markup.listing _ e.children) ⟨_, .text text⟩ =
        before ++ Markup.listing _ (appendText text e.children) := listing_appendText hbefore
    rw [List.append_assoc, List.append_assoc] at hadd
    exact hadd.symm

/-- To close an element changes the place of no node: its children stand at the end of the listing
already. -/
theorem listing_closeOne (forest : Forest) : forest.closeOne.listing = forest.listing := by
  obtain ⟨roots, _ | ⟨e, outer⟩⟩ := forest
  · rfl
  · rw [closeOne, listing_attach, OpenElement.toNode, listingOf]
    rfl

theorem path_closeOne (forest : Forest) : forest.closeOne.path = forest.path.tail := by
  obtain ⟨roots, _ | ⟨e, outer⟩⟩ := forest
  · rfl
  · rw [closeOne, attach, path_modifySiblings]
    rfl

theorem listing_close (count : Nat) (forest : Forest) :
    (forest.close count).listing = forest.listing := by
  induction count generalizing forest with
  | zero => rfl
  | succ count ih => rw [close, ih, listing_closeOne]

theorem path_close (count : Nat) (forest : Forest) :
    (forest.close count).path = forest.path.drop count := by
  induction count generalizing forest with
  | zero => rfl
  | succ count ih => rw [close, ih, path_closeOne, List.drop_tail]

theorem listing_closeTag (forest : Forest) (tag : Text) :
    (forest.closeTag tag).listing = forest.listing := by
  unfold closeTag
  split
  · exact listing_close _ forest
  · rfl

theorem path_closeTag (forest : Forest) (tag : Text) :
    (forest.closeTag tag).path = (Token.endTag tag).openAfter forest.path := by
  unfold closeTag
  rw [Token.openAfter]
  split
  · next index hindex =>
      obtain ⟨hlt, hfound⟩ := List.findIdx?_eq_some_iff_findIdx_eq.mp hindex
      have hmem : tag ∈ forest.path.map Prod.fst := by
        rw [← hfound, List.findIdx_lt_length] at hlt
        obtain ⟨e, he, htag⟩ := hlt
        rw [← of_decide_eq_true htag, path, pathOf, List.map_map]
        exact List.mem_map_of_mem he
      have hindex : forest.path.findIdx (fun e => !decide (e.1 ≠ tag)) = index := by
        rw [path, pathOf, List.findIdx_map, ← hfound]
        congr 1
        funext e
        rw [Function.comp_apply, decide_not, Bool.not_not]
        exact decide_eq_decide.mpr Iff.rfl
      rw [if_pos hmem, List.dropWhile_eq_drop_findIdx_not, hindex, List.tail_drop, path_close]
  · next hnone =>
      rw [if_neg]
      intro hmem
      rw [path, pathOf, List.map_map] at hmem
      obtain ⟨e, he, htag⟩ := List.mem_map.mp hmem
      exact of_decide_eq_false (List.findIdx?_eq_none_iff.mp hnone e he) htag

/-! ### Runs of tokens -/

theorem isVerbatim_eq_any (forest : Forest) :
    forest.isVerbatim = forest.path.head?.any fun e => isVerbatimTag e.1 := by
  rw [isVerbatim, path, pathOf, List.head?_map, Option.any_map]
  rfl

theorem path_step (forest : Forest) (token : Token) :
    (forest.step token).path = token.openAfter forest.path := by
  cases token with
  | startTag tag attributes selfClosing =>
      rw [step, Token.openAfter]
      split
      · exact path_modifySiblings forest _
      · rfl
  | endTag tag => exact path_closeTag forest tag
  | text source decoded =>
      rw [step, Token.openAfter]
      generalize (if forest.isVerbatim = true then decoded else storedText source decoded) = text
      rw [attachText]
      split
      · rfl
      · exact path_modifySiblings forest _
  | comment content => exact path_modifySiblings forest _

/-- Each token adds to the listing what it puts where it stands. -/
theorem listing_step (forest : Forest) (token : Token) :
    (forest.step token).listing =
      ((token.item? forest.path).toList.map (Entry.mk forest.path)).foldl
        (addJoined Entry.join?) forest.listing := by
  have hnew (item : Item) (hitem : ∀ other : Item, other.join? item = none) :
      addJoined Entry.join? forest.listing ⟨forest.path, item⟩ =
        forest.listing ++ [⟨forest.path, item⟩] := by
    exact addJoined_of_none fun last _ => Entry.join?_eq_none fun _ => hitem last.item
  cases token with
  | startTag tag attributes selfClosing =>
      have hitem := hnew (.element (tag, attributes)) (by rintro ⟨⟩ <;> rfl)
      simp only [Token.item?, Option.toList_some, List.map_cons, List.map_nil, List.foldl_cons,
        List.foldl_nil, hitem]
      rw [step]
      split
      · rw [listing_attach, listingOf, Markup.listing]
      · rfl
  | endTag tag => exact listing_closeTag forest tag
  | text source decoded =>
      rw [step, Token.item?, ← isVerbatim_eq_any]
      generalize (if forest.isVerbatim = true then decoded else storedText source decoded) = text
      split
      · next hempty =>
          rw [attachText, if_pos hempty]
          rfl
      · next hne => exact listing_attachText forest (by simpa using hne)
  | comment content =>
      have hitem := hnew (.comment content) (by rintro ⟨⟩ <;> rfl)
      simp only [Token.item?, Option.toList_some, List.map_cons, List.map_nil, List.foldl_cons,
        List.foldl_nil, hitem]
      exact listing_attach forest _

theorem listing_foldl (tokens : List Token) (forest : Forest) :
    (tokens.foldl step forest).listing =
      (Token.listing forest.path tokens).foldl (addJoined Entry.join?) forest.listing := by
  induction tokens generalizing forest with
  | nil => rfl
  | cons token tokens ih =>
      rw [List.foldl_cons, ih, path_step, listing_step, Token.listing, List.foldl_append]

theorem listing_finish (forest : Forest) :
    Markup.listing [] forest.finish = forest.listing := by
  have hclosed : (forest.close forest.unclosed.length).path = [] := by
    rw [path_close, path, pathOf]
    exact List.drop_eq_nil_of_le (Nat.le_of_eq (List.length_map _))
  rw [← listing_close forest.unclosed.length, finish]
  generalize forest.close forest.unclosed.length = closed at hclosed
  obtain ⟨roots, unclosed⟩ := closed
  obtain rfl := List.map_eq_nil_iff.mp hclosed
  rfl

end Forest

/-- The nodes that tokens come to are those whose listing is what the tokens tell: each node in its
place, with the elements open there as its ancestors, and texts in one place as one.  Without
ancestors the two list the same items in the same order. -/
theorem ofTokens_eq_iff_listing (tokens : List Token) :
    (∀ nodes, Forest.ofTokens tokens = nodes ↔
      listing [] nodes = joined Entry.join? (Token.listing [] tokens)) ∧
    joined Item.join? ((listing [] (Forest.ofTokens tokens)).map Entry.item) =
      joined Item.join? ((Token.listing [] tokens).map Entry.item) := by
  have hlisting : listing [] (Forest.ofTokens tokens) =
      joined Entry.join? (Token.listing [] tokens) := by
    rw [Forest.ofTokens, Forest.listing_finish, Forest.listing_foldl]
    rfl
  refine ⟨fun nodes => ⟨?_, fun h => ?_⟩, ?_⟩
  · rintro rfl
    exact hlisting
  · exact listing_injective _ _ (hlisting.trans h.symm)
  · rw [hlisting, Entry.joined_map_item]

end HtmlTemplate.Markup
