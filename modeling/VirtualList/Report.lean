import VirtualList.WindowedItems

namespace VirtualList
namespace Report

def braced (name : String) (parts : List String) : String :=
  name ++ " \x7b " ++ ", ".intercalate parts ++ " \x7d"

def field (name text : String) : String := name ++ ": " ++ text

def bracketed (texts : List String) : String := "[" ++ ", ".intercalate texts ++ "]"

def ofBool : Bool → String
  | true => "true"
  | false => "false"

def ofShape (shape : WindowShape) : String :=
  braced "NearestRangeConfig" [
    field "sliding_window_size" (toString shape.bucket),
    field "extra_item_count" (toString shape.margin)]

def ofWindow (window : Window) : String :=
  braced "NearestRangeState" [
    field "value" window.range.text,
    field "last_first_visible_item" (toString window.first),
    field "config" (ofShape window.shape)]

def ofGroup (group : ItemGroup) : String :=
  braced "LazyListInterval" [
    field "has_key" (ofBool group.key.isSome),
    field "has_content_type" (ofBool group.contentType.isSome)]

def ofSegment (segment : Segment ItemGroup) : String :=
  braced "Interval" [
    field "start_index" (toString segment.first),
    field "size" (toString segment.size),
    field "value" (ofGroup segment.value)]

def ofContent (content : Content) : String :=
  braced "LazyListIntervalContent" [
    field "intervals" (braced "IntervalList" [
      field "intervals" (bracketed (content.toList.map ofSegment)),
      field "size" (toString content.size)])]

-- The two dots stand for what is not shown.
def ofItems (items : WindowedItems) : String :=
  braced "LazyListItemProvider" [
    field "content" (ofContent items.content),
    field "nearest_range" (ofWindow items.window),
    ".."]

end Report
end VirtualList
