namespace CircuitDesk.CommandLine.Script.Zsh

def opening : List String := [
  "#compdef quipdeck",
  "compdef _quipdeck quipdeck",
  "",
  "# zsh completion for quipdeck                             -*- shell-script -*-",
  "",
  "__quipdeck_debug()",
  "\x7b",
  "    local file=\"$BASH_COMP_DEBUG_FILE\"",
  "    if [[ -n $\x7bfile\x7d ]]; then",
  "        echo \"$*\" >> \"$\x7bfile\x7d\"",
  "    fi",
  "\x7d",
  ""]

def question (request : String) : List String := [
  "_quipdeck()",
  "\x7b",
  "    local shellCompDirectiveError=1",
  "    local shellCompDirectiveNoSpace=2",
  "    local shellCompDirectiveNoFileComp=4",
  "    local shellCompDirectiveFilterFileExt=8",
  "    local shellCompDirectiveFilterDirs=16",
  "    local shellCompDirectiveKeepOrder=32",
  "",
  "    local lastParam lastChar flagPrefix requestComp out directive comp lastComp noSpace keepOrder",
  "    local -a completions",
  "",
  "    __quipdeck_debug \"\\n========= starting completion logic ==========\"",
  "    __quipdeck_debug \"CURRENT: $\x7bCURRENT\x7d, words[*]: $\x7bwords[*]\x7d\"",
  "",
  "    # The user could have moved the cursor backwards on the command-line.",
  "    # We need to trigger completion from the $CURRENT location, so we need",
  "    # to truncate the command-line ($words) up to the $CURRENT location.",
  "    # (We cannot use $CURSOR as its value does not work when a command is an alias.)",
  "    words=(\"$\x7b=words[1,CURRENT]\x7d\")",
  "    __quipdeck_debug \"Truncated words[*]: $\x7bwords[*]\x7d,\"",
  "",
  "    lastParam=$\x7bwords[-1]\x7d",
  "    lastChar=$\x7blastParam[-1]\x7d",
  "    __quipdeck_debug \"lastParam: $\x7blastParam\x7d, lastChar: $\x7blastChar\x7d\"",
  "",
  "    # For zsh, when completing a flag with an = (e.g., quipdeck -n=<TAB>)",
  "    # completions must be prefixed with the flag",
  "    setopt local_options BASH_REMATCH",
  "    if [[ \"$\x7blastParam\x7d\" =~ '-.*=' ]]; then",
  "        # We are dealing with a flag with an =",
  "        flagPrefix=\"-P $\x7bBASH_REMATCH\x7d\"",
  "    fi",
  "",
  "    # Prepare the command to obtain completions",
  "    requestComp=\"$\x7bwords[1]\x7d " ++ request ++ " $\x7bwords[2,-1]\x7d\"",
  "    if [ \"$\x7blastChar\x7d\" = \"\" ]; then",
  "        # If the last parameter is complete (there is a space following it)",
  "        # We add an extra empty parameter so we can indicate this to the go completion code.",
  "        __quipdeck_debug \"Adding extra empty parameter\"",
  "        requestComp=\"$\x7brequestComp\x7d \\\"\\\"\"",
  "    fi",
  "",
  "    __quipdeck_debug \"About to call: eval $\x7brequestComp\x7d\"",
  "",
  "    # Use eval to handle any environment variables and such",
  "    out=$(eval $\x7brequestComp\x7d 2>/dev/null)",
  "    __quipdeck_debug \"completion output: $\x7bout\x7d\"",
  ""]

def answer : List String := [
  "    # Extract the directive integer following a : from the last line",
  "    local lastLine",
  "    while IFS='\\n' read -r line; do",
  "        lastLine=$\x7bline\x7d",
  "    done < <(printf \"%s\\n\" \"$\x7bout[@]\x7d\")",
  "    __quipdeck_debug \"last line: $\x7blastLine\x7d\"",
  "",
  "    if [ \"$\x7blastLine[1]\x7d\" = : ]; then",
  "        directive=$\x7blastLine[2,-1]\x7d",
  "        # Remove the directive including the : and the newline",
  "        local suffix",
  "        (( suffix=$\x7b#lastLine\x7d+2))",
  "        out=$\x7bout[1,-$suffix]\x7d",
  "    else",
  "        # There is no directive specified.  Leave $out as is.",
  "        __quipdeck_debug \"No directive found.  Setting do default\"",
  "        directive=0",
  "    fi",
  "",
  "    __quipdeck_debug \"directive: $\x7bdirective\x7d\"",
  "    __quipdeck_debug \"completions: $\x7bout\x7d\"",
  "    __quipdeck_debug \"flagPrefix: $\x7bflagPrefix\x7d\"",
  "",
  "    if [ $((directive & shellCompDirectiveError)) -ne 0 ]; then",
  "        __quipdeck_debug \"Completion received error. Ignoring completions.\"",
  "        return",
  "    fi",
  "",
  "    local activeHelpMarker=\"_activeHelp_ \"",
  "    local endIndex=$\x7b#activeHelpMarker\x7d",
  "    local startIndex=$(($\x7b#activeHelpMarker\x7d+1))",
  "    local hasActiveHelp=0",
  "    while IFS='\\n' read -r comp; do",
  "        # Check if this is an activeHelp statement (i.e., prefixed with $activeHelpMarker)",
  "        if [ \"$\x7bcomp[1,$endIndex]\x7d\" = \"$activeHelpMarker\" ];then",
  "            __quipdeck_debug \"ActiveHelp found: $comp\"",
  "            comp=\"$\x7bcomp[$startIndex,-1]\x7d\"",
  "            if [ -n \"$comp\" ]; then",
  "                compadd -x \"$\x7bcomp\x7d\"",
  "                __quipdeck_debug \"ActiveHelp will need delimiter\"",
  "                hasActiveHelp=1",
  "            fi",
  "",
  "            continue",
  "        fi",
  "",
  "        if [ -n \"$comp\" ]; then",
  "            # If requested, completions are returned with a description.",
  "            # The description is preceded by a TAB character.",
  "            # For zsh's _describe, we need to use a : instead of a TAB.",
  "            # We first need to escape any : as part of the completion itself.",
  "            comp=$\x7bcomp//:/\\\\:\x7d",
  "",
  "            local tab=\"$(printf '\\t')\"",
  "            comp=$\x7bcomp//$tab/:\x7d",
  "",
  "            __quipdeck_debug \"Adding completion: $\x7bcomp\x7d\"",
  "            completions+=$\x7bcomp\x7d",
  "            lastComp=$comp",
  "        fi",
  "    done < <(printf \"%s\\n\" \"$\x7bout[@]\x7d\")",
  "",
  "    # Add a delimiter after the activeHelp statements, but only if:",
  "    # - there are completions following the activeHelp statements, or",
  "    # - file completion will be performed (so there will be choices after the activeHelp)",
  "    if [ $hasActiveHelp -eq 1 ]; then",
  "        if [ $\x7b#completions\x7d -ne 0 ] || [ $((directive & shellCompDirectiveNoFileComp)) -eq 0 ]; then",
  "            __quipdeck_debug \"Adding activeHelp delimiter\"",
  "            compadd -x \"--\"",
  "            hasActiveHelp=0",
  "        fi",
  "    fi",
  ""]

def offer : List String := [
  "    if [ $((directive & shellCompDirectiveNoSpace)) -ne 0 ]; then",
  "        __quipdeck_debug \"Activating nospace.\"",
  "        noSpace=\"-S ''\"",
  "    fi",
  "",
  "    if [ $((directive & shellCompDirectiveKeepOrder)) -ne 0 ]; then",
  "        __quipdeck_debug \"Activating keep order.\"",
  "        keepOrder=\"-V\"",
  "    fi",
  "",
  "    if [ $((directive & shellCompDirectiveFilterFileExt)) -ne 0 ]; then",
  "        # File extension filtering",
  "        local filteringCmd",
  "        filteringCmd='_files'",
  "        for filter in $\x7bcompletions[@]\x7d; do",
  "            if [ $\x7bfilter[1]\x7d != '*' ]; then",
  "                # zsh requires a glob pattern to do file filtering",
  "                filter=\"\\*.$filter\"",
  "            fi",
  "            filteringCmd+=\" -g $filter\"",
  "        done",
  "        filteringCmd+=\" $\x7bflagPrefix\x7d\"",
  "",
  "        __quipdeck_debug \"File filtering command: $filteringCmd\"",
  "        _arguments '*:filename:'\"$filteringCmd\"",
  "    elif [ $((directive & shellCompDirectiveFilterDirs)) -ne 0 ]; then",
  "        # File completion for directories only",
  "        local subdir",
  "        subdir=\"$\x7bcompletions[1]\x7d\"",
  "        if [ -n \"$subdir\" ]; then",
  "            __quipdeck_debug \"Listing directories in $subdir\"",
  "            pushd \"$\x7bsubdir\x7d\" >/dev/null 2>&1",
  "        else",
  "            __quipdeck_debug \"Listing directories in .\"",
  "        fi",
  "",
  "        local result",
  "        _arguments '*:dirname:_files -/'\" $\x7bflagPrefix\x7d\"",
  "        result=$?",
  "        if [ -n \"$subdir\" ]; then",
  "            popd >/dev/null 2>&1",
  "        fi",
  "        return $result",
  "    else",
  "        __quipdeck_debug \"Calling _describe\"",
  "        if eval _describe $keepOrder \"completions\" completions $flagPrefix $noSpace; then",
  "            __quipdeck_debug \"_describe found some completions\"",
  "",
  "            # Return the success of having called _describe",
  "            return 0",
  "        else",
  "            __quipdeck_debug \"_describe did not find completions.\"",
  "            __quipdeck_debug \"Checking if we should do file completion.\"",
  "            if [ $((directive & shellCompDirectiveNoFileComp)) -ne 0 ]; then",
  "                __quipdeck_debug \"deactivating file completion\"",
  "",
  "                # We must return an error code here to let zsh know that there were no",
  "                # completions found by _describe; this is what will trigger other",
  "                # matching algorithms to attempt to find completions.",
  "                # For example zsh can match letters in the middle of words.",
  "                return 1",
  "            else",
  "                # Perform file completion",
  "                __quipdeck_debug \"Activating file completion\"",
  "",
  "                # We must return the result of this command, so it must be the",
  "                # last command, or else we must store its result to return it.",
  "                _arguments '*:filename:_files'\" $\x7bflagPrefix\x7d\"",
  "            fi",
  "        fi",
  "    fi",
  "\x7d",
  ""]

def closing : List String := [
  "# don't run the completion function when being source-ed or eval-ed",
  "if [ \"$funcstack[1]\" = \"_quipdeck\" ]; then",
  "    _quipdeck",
  "fi"]

def lines (request : String) : List String :=
  opening ++ question request ++ answer ++ offer ++ closing

end CircuitDesk.CommandLine.Script.Zsh
